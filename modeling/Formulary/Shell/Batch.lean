import Formulary.Shell.Display
import Formulary.Session.Desk

/-!
# Batches

A batch is a list of named formulas that are evaluated on one desk.
-/

namespace Formulary.Shell

structure Formula where
  name : String
  text : Text

/-- What came of a formula: the type of what compiled, the value of what was evaluated, or the
failure. What there is not is empty. -/
structure Result where
  name : String
  type : String := ""
  value : Text := []
  failure : Option Failure := none

/-- The name of a formula; one without a name is called by its number, counted from one. -/
def Formula.label (f : Formula) (index : Nat) : String :=
  if f.name.isEmpty then s!"#{index + 1}" else f.name

def Formula.evaluate (f : Formula) (index : Nat) (d : Desk) : Result :=
  let name := f.label index
  match d.compile f.text with
  | .error e => { name := name, failure := some e }
  | .ok c =>
    match (d.run c).1 with
    | .ok v => { name := name, type := c.type.name, value := v.display }
    | .error e => { name := name, type := c.type.name, failure := some e }

def evaluateAll (d : Desk) (formulas : List Formula) : List Result :=
  formulas.mapIdx fun i f => f.evaluate i d

/-- The results of a batch that stops at the first formula that fails. -/
def strictly (results : List Result) : Except Failure (List Result) :=
  results.mapM fun r =>
    match r.failure with
    | none => .ok r
    | some f => .error (.within r.name f)

def batch (d : Desk) (strict : Bool) (formulas : List Formula) : Except Failure (List Result) :=
  let results := evaluateAll d formulas
  if strict then strictly results else .ok results

end Formulary.Shell
