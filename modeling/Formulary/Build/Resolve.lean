import Formulary.Build.Operate
import Formulary.Build.Suggestion

/-!
# Names

What the names of a chain such as `a.b(c)[d]` stand for. The first name is looked up among the
members of the owner, imported constants, variables, names supplied on demand, and imported
namespaces and types; the later ones among the members of what stands before them. Calls choose
among overloads.
-/

namespace Formulary.Build

open Overload (Candidate Scale)

structure Reference where
  name : String
  args : Option (List Element)

inductive Subject where
  | value (e : Element)
  | scope (path : String) (members : List Member)
  | type (path : String)

def undefined (message name : String) (known : List String) : Except Failure α :=
  refusedAt .undefinedName (withSuggestions message name known) name

/-- The failure of a name that stands for nothing. -/
def undefinedName (s : Scope) (name : String) : Except Failure α :=
  undefined s!"name {Text.quoteString name} is not defined" name s.knownNames

def undefinedMember (s : Scope) (t : Ty) (name : String) : Except Failure α :=
  undefined s!"{t.name} has no member {Text.quoteString name}" name (s.memberNames t)

def candidates (members : List Member) (access : Access) (extension : Bool) :
    List (Candidate Member) :=
  members.filterMap fun m => m.signature?.map fun sig =>
    { name := m.name, params := sig.params, variadic := sig.variadic, extension := extension,
      accessible := m.isAccessible access, payload := m }

def blaming (name : String) : Failure → Failure
  | .compile e => .compile (e.blaming name)
  | f => f

def convertArguments (s : Scope) (paramType? : Nat → Option Ty) (args : List Element) :
    Except Failure (List Element) :=
  args.zipIdx.mapM fun (a, i) =>
    match paramType? i with
    | some t => s.implicit a t
    | none => .error (.broken none)

/-- The call of the best candidate. A method is called on the receiver, an extension takes it as its
first argument, and a function ignores it. -/
def callBest (s : Scope) (receiver : Option Element) (name : String) (args : List Element)
    (cands : List (Candidate Member)) : Except Failure Element := do
  let types := args.map Element.type
  match Overload.resolve Scale.double s.score cands types with
  | .error fault => .error (blaming name (fault.failure name types))
  | .ok best =>
    let member := best.candidate.payload
    match member.signature?, member.valueType?, member.hasResult with
    | some sig, some t, true => do
      let args ← convertArguments s best.paramType? args
      let spread := best.expanded || !sig.variadic
      match member, receiver with
      | .function n f, recv =>
        if best.candidate.extension then
          match recv, sig.params with
          | some r, p :: _ => do
            let r ← s.implicit r p
            .ok (.call n f spread t (r :: args))
          | _, _ => .error (.broken none)
        else .ok (.call n f spread t args)
      | m, some r => .ok (.invoke m.name sig spread t r args)
      | _, none => .error (.broken none)
    | _, _, _ =>
      refusedAt .noReturnValue s!"{best.candidate.signature} does not return a value" name

def functionsOf (members : List Member) : List Member := members.filter fun m => m.kind == .function

def ownerElement (s : Scope) : Option Element := s.ownerType.map .owner

/-- Reads the first accessible one of some members, or says that they are not accessible; `none` if
there are no members. -/
def readFirst (members : List Member) (access : Access) (receiver : Element) :
    Option (Except Member Element) :=
  match members.find? (·.isAccessible access), members.getLast? with
  | some m, _ => some (.ok (.read m (m.valueType?.getD .null) receiver))
  | none, some m => some (.error m)
  | none, none => none

/-- The members that are read without a call. -/
def readable : List MemberKind := [.field, .property]

def firstName (s : Scope) (name : String) : Except Failure Subject :=
  let owned :=
    match ownerElement s with
    | some o => readFirst (s.ownerMembers name readable) s.options.ownerAccess o
    | none => none
  let found := s.imported name
  let constant := found.findSome? fun m =>
    match m with
    | .constant _ t v => some (Element.constant t v none)
    | _ => none
  let scope := (found.filterMap fun m =>
    match m with
    | .namespace n ms => some (Subject.scope n ms)
    | _ => none).getLast?
  let type := (found.filterMap fun m =>
    match m with
    | .type n _ => some (Subject.type n)
    | _ => none).getLast?
  match owned with
  | some (.ok e) => .ok (.value e)
  | _ =>
    match constant, (s.store.typeOf? name).or (s.store.suppliedType? name),
    scope.or type, owned with
    | some e, _, _, _ => .ok (.value e)
    | none, some t, _, _ => .ok (.value (.variable name t))
    | none, none, some subject, _ => .ok subject
    | none, none, none, some (.error m) =>
      refusedAt .accessDenied s!"{m.kind.name} {m.name} is not accessible" name
    | none, none, none, _ => undefinedName s name

/-- A first name with arguments: methods of the owner and imported functions compete, then functions
supplied on demand. -/
def firstCall (s : Scope) (name : String) (args : List Element) : Except Failure Element :=
  let cands := candidates (s.ownerMembers name [.method]) s.options.ownerAccess false ++
    candidates (functionsOf (s.imported name)) .all false
  let supplied := s.store.suppliedFunction? name (args.map Element.type)
  let attempt :=
    if cands.isEmpty then undefinedName s name else callBest s (ownerElement s) name args cands
  match attempt, supplied with
  | .error (.compile e), some t =>
    if e.reason == .undefinedName then .ok (.demand name t args) else .error (.compile e)
  | outcome, _ => outcome

def first (s : Scope) (r : Reference) : Except Failure Subject :=
  match r.args with
  | none => firstName s r.name
  | some args => (firstCall s r.name args).map .value

def inNamespace (s : Scope) (path : String) (members : List Member) (r : Reference) :
    Except Failure Subject :=
  let found := Imports.lookup members r.name s.options.caseSensitive
  let missing : Except Failure Subject :=
    undefined s!"namespace {path}: name {Text.quoteString r.name} is not defined" r.name
      (members.map Member.name)
  match r.args with
  | some args =>
    match functionsOf found with
    | [] => missing
    | fns => (callBest s none r.name args (candidates fns .all false)).map .value
  | none =>
    let first := found.findSome? fun m =>
      match m with
      | .constant _ t v => some (Subject.value (.constant t v none))
      | .namespace n ms => some (.scope s!"{path}.{n}" ms)
      | .type n _ => some (.type s!"{path}.{n}")
      | _ => none
    match first with
    | some subject => .ok subject
    | none => missing

/-- The access to the members of a type: the owner's may be more open than that of other types. -/
def accessTo (s : Scope) (t : Ty) : Access :=
  if s.ownerType == some t then s.options.ownerAccess else .open

/-- A member of a value, read or called. Functions of the root can be called like methods of their
first argument. -/
def memberOf (s : Scope) (e : Element) (r : Reference) : Except Failure Element :=
  let t := e.type
  let access := accessTo s t
  let find := s.host.findMembers t r.name s.options.caseSensitive
  match r.args with
  | none =>
    match readFirst (find readable) access e with
    | some (.ok read) => .ok read
    | some (.error m) =>
      refusedAt .accessDenied s!"{m.kind.name} {m.name} of {t.name} is not accessible" r.name
    | none => undefinedMember s t r.name
  | some args =>
    let extensions := (Imports.extensions s.imports r.name s.options.caseSensitive).filter fun m =>
      match m.signature?.bind (·.params.head?) with
      | some p => s.converts t p
      | none => false
    match candidates (find [.method]) access false ++ candidates extensions .all true with
    | [] => undefinedMember s t r.name
    | cands => callBest s (some e) r.name args cands

/-- A name after what a chain stands for so far. -/
def next (s : Scope) (subject : Subject) (r : Reference) : Except Failure Subject :=
  match subject with
  | .scope path members => inNamespace s path members r
  | .type path => refusedAt .undefinedName s!"type {path} has no member {r.name}" r.name
  | .value e => (memberOf s e r).map .value

/-- Indexes after what a chain stands for so far. -/
def index (s : Scope) (subject : Subject) (positions : List Element) : Except Failure Subject :=
  match subject with
  | .value e => (positions.foldlM (indexOne s) e).map .value
  | subject => if positions.isEmpty then .ok subject else mismatch "only values can be indexed"

def Subject.element : Subject → Except Failure Element
  | .value e => .ok e
  | .scope path _ => refusedAt .typeMismatch s!"{path} is a namespace, not a value" path
  | .type path => refusedAt .typeMismatch s!"{path} is a type, not a value" path

end Formulary.Build
