import Formulary.Session.Context

/-!
# Workspaces

A workspace holds contexts and compiled expressions under numbers, with the one store of variables
that they share. An expression keeps a snapshot of the context it was compiled in, unless it is to
share the context itself; later changes of the context do not reach it, changes of the variables do.
-/

namespace Formulary

structure Expression where
  compiled : Compiled
  context : Nat
  owner : Value

structure Workspace where
  host : Host
  store : Store := {}
  contexts : Array Context := #[]
  expressions : Array Expression := #[]
  tally : Tally := []

namespace Workspace

/-- A workspace with one context, number zero. -/
def create (host : Host) (c : Context) : Workspace where
  host := host
  store := { caseSensitive := c.options.caseSensitive }
  contexts := #[c]

variable (w : Workspace)

def changeContext (n : Nat) (f : Context → Context) : Workspace :=
  { w with contexts := w.contexts.modify n f }

/-- A copy of a context under a new number. -/
def cloneContext (n : Nat) : Nat × Workspace :=
  match w.contexts[n]? with
  | some c => (w.contexts.size, { w with contexts := w.contexts.push c })
  | none => (n, w)

/-- Changes the options of a context; the store follows a change of the case rule. -/
def setOptions (n : Nat) (f : Options → Options) : Workspace :=
  match w.contexts[n]? with
  | none => w
  | some c =>
    let o := f c.options
    let store :=
      if o.caseSensitive == c.options.caseSensitive then w.store
      else w.store.withCaseRule o.caseSensitive
    { w.changeContext n fun c => { c with options := o } with store := store }

def rebuildLexer (n : Nat) : Except String Workspace :=
  match w.contexts[n]? with
  | none => .ok w
  | some c => c.withLexer.map fun c => w.changeContext n fun _ => c

/-- Compiles a text in a context, with options changed for this text only, to an expression of a new
number. -/
def compile (n : Nat) (f : Options → Options) (text : Text) : Except Failure (Nat × Workspace) :=
  match w.contexts[n]? with
  | none => .error (.broken none)
  | some c => do
    let o := f c.options
    let compiled ← c.compile w.host w.store o text
    let (home, w) := if o.shared then (n, w) else w.cloneContext n
    .ok (w.expressions.size, { w with expressions := w.expressions.push ⟨compiled, home, c.owner⟩ })

/-- The value of an expression. Formulas held by variables are evaluated when they are read, up to a
depth. -/
def valueOf : Nat → Nat → Eval Value
  | 0, _ => breakdown
  | depth + 1, n =>
    match w.expressions[n]? with
    | none => breakdown
    | some e =>
      runProgram
        { host := w.host
          owner := e.owner
          load := w.store.load w.host (valueOf depth)
          demand := w.store.demand w.host }
        e.compiled.program

/-- Evaluates an expression. Formulas that do not depend on themselves nest at most as deep as there
are expressions. -/
def evaluate (n : Nat) : Except Failure Value × Workspace :=
  let (r, tally) := (w.valueOf (w.expressions.size + 1) n).run w.tally
  (r, { w with tally := tally })

def ownerFault? (e : Expression) (owner : Value) : Option String :=
  match (w.contexts[e.context]?).bind (·.owner.type?) with
  | none => some s!"expression {Text.quote e.compiled.text} was compiled without an owner"
  | some want =>
    match owner.type? with
    | none => if want.isNullable then none else some s!"owner of type {want.name} cannot be nil"
    | some t =>
      if w.host.isAssignable t want then none
      else some s!"owner of type {t.name} is not assignable to {want.name}"

/-- Gives an expression another owner of the type it was compiled for. -/
def setOwner (n : Nat) (owner : Value) : Except String Workspace :=
  match w.expressions[n]? with
  | none => .ok w
  | some e =>
    match w.ownerFault? e owner with
    | some fault => .error fault
    | none => .ok { w with expressions := w.expressions.modify n fun e =>
        { e with owner := owner } }

/-- A copy of an expression with an owner of its own, under a new number. -/
def cloneExpression (n : Nat) : Nat × Workspace :=
  match w.expressions[n]? with
  | some e => (w.expressions.size, { w with expressions := w.expressions.push e })
  | none => (n, w)

/-- Imports members at the end of a path of a context. -/
def importInto (n : Nat) (path : List String) (additions : List (Except String Member)) :
    Workspace × Option String :=
  match w.contexts[n]? with
  | none => (w, none)
  | some c =>
    let (imports, fault) := Imports.add path additions c.imports
    (w.changeContext n fun c => { c with imports := imports }, fault)

/-- Registers overloads or conversions in a context. -/
def register (n : Nat) (f : Operators → Except String Operators) : Except String Workspace :=
  match w.contexts[n]? with
  | none => .ok w
  | some c => (f c.operators).map fun ops => w.changeContext n fun c => { c with operators := ops }

def evaluateAs (n : Nat) (t : Ty) : Except Failure Value × Workspace :=
  let (r, w') := w.evaluate n
  let compiled := ((w.expressions[n]?).map (·.compiled)).getD default
  (r.bind (compiled.typed w.host t), w')

end Workspace

end Formulary
