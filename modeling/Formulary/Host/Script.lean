import Formulary.Host.Member
import Formulary.Value.Spelling

/-!
# Scripted functions

Functions of the host that are described rather than written: they give a fixed value, one of their
arguments, a trace of what they received, a failure or nothing.
-/

namespace Formulary

inductive Action where
  | give (v : Value)
  | echo (index : Nat)
  | trace
  | refuse (message : String)
  | collapse (message : String)
  | nothing

structure Script where
  signature : Signature
  action : Action
  counter : Option String := none

namespace Value

mutual

/-- The type and text of a value, as a trace shows it. -/
def traced : Value → Text
  | .nil => Text.ofString "null"
  | .slice t _ items label => Text.ofString (Ty.name (.slice t label) ++ "=[") ++ tracedAll items ++
      Text.ofString "]"
  | .array t items label =>
    Text.ofString (Ty.name (.array items.length t label) ++ "=[") ++ tracedAll items ++
      Text.ofString "]"
  | .pointer t _ v label => Text.ofString (Ty.name (.pointer t label) ++ "=") ++ v.spelling
  | v => Text.ofString (Ty.nameOf v.type? ++ "=") ++ v.spelling

def tracedAll : List Value → Text
  | [] => []
  | [v] => v.traced
  | v :: rest => v.traced ++ Text.ofString ", " ++ tracedAll rest

end

end Value

namespace Script

/-- A result of the declared type; a result of another type is a breakdown of the host, and so is a
value where none is declared. -/
def checked (host : Host) (s : Signature) (v : Value) : Eval Value :=
  match s.results with
  | t :: _ =>
    match v with
    | .nil => pure (host.zero t)
    | v => if host.accepts t v then pure v else breakdown
  | [] => pure .nil

/-- What a scripted function answers to arguments, whatever its declared results. -/
def answer (s : Script) (args : List Value) : Eval Value := do
  match s.counter with
  | some name => modify fun t => Tally.bump t name
  | none => pure ()
  match s.action with
  | .give v => pure v
  | .echo i =>
    match args[i]? with
    | some v => pure v
    | none => breakdown
  | .trace => pure (.string ((args.map Value.traced).intersperse (Text.ofString "; ")).flatten)
  | .refuse m => failed (.plain m)
  | .collapse m => failed (.broken (some m))
  | .nothing => pure .nil

/-- What a scripted function gives for arguments: its answer as a result of the declared type. -/
def run (host : Host) (s : Script) (args : List Value) : Eval Value := do
  checked host s.signature (← s.answer args)

def function (host : Host) (s : Script) : Function := ⟨s.signature, s.run host⟩

end Script

end Formulary
