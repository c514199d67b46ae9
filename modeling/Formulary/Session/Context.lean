import Formulary.Build.Tree
import Formulary.Element.Code

/-!
# Contexts

A context holds what texts are compiled against: options, imports, overloads, the owner object and
the lexer. Compiling a text gives its program and the type of its value.
-/

namespace Formulary

open Lexical (Lexer)
open Machine (Program)

structure Context where
  options : Options
  imports : List Member := []
  operators : Operators := {}
  owner : Value := .nil
  lexer : Lexer

structure Compiled where
  text : Text
  program : Program Instruction
  type : Ty

instance : Inhabited Compiled := ⟨⟨[], default, .null⟩⟩

/-- The value of an evaluation as one of a type: no value is the zero value, a value of another type
is refused. -/
def Compiled.typed (c : Compiled) (host : Host) (t : Ty) (v : Value) : Except Failure Value :=
  match v.type? with
  | none => .ok (host.zero t)
  | some vt =>
    if host.suits vt t then .ok v
    else
      .error (.plain s!"expression {Text.quote c.text}: result of type {vt.name} is not a {t.name}")

namespace Context

/-- A new context, or what is wrong with its lexical options. -/
def create (owner : Value) (o : Options) : Except String Context :=
  match o.lexical.fault? with
  | some fault => .error s!"new context: {fault.message}"
  | none => .ok { options := o, owner := owner, lexer := .ofOptions o.lexical }

/-- The context with a lexer of its current lexical options. -/
def withLexer (c : Context) : Except String Context :=
  match c.options.lexical.fault? with
  | some fault => .error s!"recreate parser: {fault.message}"
  | none => .ok { c with lexer := .ofOptions c.options.lexical }

/-- What the names of a text mean in a context. -/
def scope (c : Context) (host : Host) (store : Store) (o : Options) : Scope where
  host := host
  options := o
  operators := c.operators
  imports := c.imports
  store := store
  ownerType := c.owner.type?

def parse (c : Context) (text : Text) : Except Failure Grammar.Tree :=
  (Grammar.parse c.lexer text).mapError fun fault => .compile fault.error

/-- The element of a text, converted to the type of its result. Without a declared type the result
has the type of the text; what is only null is an object. -/
def element (c : Context) (host : Host) (store : Store) (o : Options) (text : Text) :
    Except Failure Element := do
  let tree ← c.parse text
  let s := c.scope host store o
  let root ← Build.element s tree
  let inferred := if root.type == .null then .object else root.type
  let result := o.resultType.getD inferred
  match s.implicit root result with
  | .ok e => .ok e
  | .error _ => mismatch s!"expression of type {root.type.name} cannot be returned as {result.name}"

def compile (c : Context) (host : Host) (store : Store) (o : Options) (text : Text) :
    Except Failure Compiled := do
  let root ← c.element host store o text
  match root.program (Machine.limitOf o.maxInstructions) with
  | .ok program => .ok ⟨text, program, root.type⟩
  | .error fault => .error fault.failure

end Context

namespace Grammar.Tree

/-- The name a tree starts with, if it is a chain that starts with a name alone. -/
def firstName? : Tree → Option Text
  | .node rule _ _ (.node inner _ _ [.leaf t] :: _) =>
    if (rule == Form.chain.number || rule == Form.collection.number) &&
      inner == Form.name.number then some t.image
    else none
  | _ => none

mutual

/-- The names that chains start with, in order. -/
def firstNames (t : Tree) : List Text :=
  match t with
  | .leaf _ => []
  | .node rule name place children =>
    (firstName? (.node rule name place children)).toList ++ firstNamesOf children

/-- The names that chains of several trees start with. -/
def firstNamesOf : List Tree → List Text
  | [] => []
  | t :: rest => firstNames t ++ firstNamesOf rest

end

end Grammar.Tree

namespace Context

def isImportedScope (c : Context) (name : String) : Bool :=
  (Imports.lookup c.imports name c.options.caseSensitive).any fun m =>
    m.kind == .namespace || m.kind == .type

/-- The names among some that are not seen before, each once under the case rule. -/
def distinct (caseSensitive : Bool) (seen : List Text) : List String → List String
  | [] => []
  | name :: rest =>
    let key := nameKey caseSensitive name
    if seen.contains key then distinct caseSensitive seen rest
    else name :: distinct caseSensitive (key :: seen) rest

/-- The names a text reads that are neither variables nor imported: those that are still to be
supplied. -/
def identifiers (c : Context) (store : Store) (text : Text) : Except Failure (List String) := do
  let tree ← c.parse text
  let names := tree.firstNames.map Build.identifier
  let unknown := names.filter fun n => !store.contains n && !c.isImportedScope n
  .ok (distinct c.options.caseSensitive [] unknown)

end Context

end Formulary
