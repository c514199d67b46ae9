import Formulary.Session.Workspace

/-!
# Desks

A desk is one context with the workspace around it: texts are compiled in the context and evaluated
one after another with the variables of the workspace.
-/

namespace Formulary

structure Desk extends Workspace where
  context : Context

namespace Desk

def create (host : Host) (imports : List Member) (o : Options) : Except Failure Desk :=
  match Context.create .nil o with
  | .error message => .error (.plain message)
  | .ok c =>
    .ok {
      host := host
      context := { c with imports := imports }
      store := { caseSensitive := o.caseSensitive } }

variable (d : Desk)

def define (name : String) (type : Option Ty) (v : Value) : Except Failure Desk :=
  match d.store.define d.host name type (.value v) with
  | (.ok (), store) => .ok { d with store := store }
  | (.error fault, _) => .error (.plain fault.message)

def compile (text : Text) : Except Failure Compiled :=
  d.context.compile d.host d.store d.context.options text

def compileAs (t : Ty) (text : Text) : Except Failure Compiled :=
  d.context.compile d.host d.store { d.context.options with resultType := some t } text

/-- What a program finds on the desk. -/
def environment : Environment where
  host := d.host
  owner := d.context.owner
  load := d.store.load d.host (d.valueOf (d.expressions.size + 1))
  demand := d.store.demand d.host

def run (c : Compiled) : Except Failure Value × Desk :=
  let (r, tally) := (runProgram d.environment c.program).run d.tally
  (r, { d with tally := tally })

/-- The names of a text that are still to be supplied. -/
def identifiers (text : Text) : Except Failure (List String) := d.context.identifiers d.store text

/-- Puts the value of a text under a name, in place of what stood there. The new variable has the
type of the text. A text that does not compile or has no value leaves the variables as they are; the
failure tells the name of the variable, unless the compiler itself broke down. -/
def assign (name : String) (text : Text) : Except Failure Unit × Desk :=
  if name.isEmpty then (.error (.plain s!"empty variable name in {Text.quote text}"), d)
  else
    match d.compile text with
    | .error (.broken words) => (.error (.broken words), d)
    | .error f => (.error (.within s!"variable {name}" f), d)
    | .ok c =>
      match d.run c with
      | (.error f, d) => (.error (.within s!"variable {name}" f), d)
      | (.ok v, d) =>
        match (d.store.remove name).define d.host name (some c.type) (.value v) with
        | (.error fault, store) => (.error (.plain fault.message), { d with store := store })
        | (.ok (), store) => (.ok (), { d with store := store })

end Desk

end Formulary
