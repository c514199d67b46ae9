import Formulary.Session.Engine
import Formulary.Text.Cut

/-!
# Settings of the shell

What a user sets for all texts of a session, and the desk that these settings give.
-/

namespace Formulary.Shell

structure Settings where
  caseSensitive : Bool := false
  checked : Bool := false
  integersAsDoubles : Bool := false
  ignoreCase : Bool := false
  realLiteral : Text := Text.ofString "double"
  dateFormat : Text := ({} : Lexical.Options).dateFormat
  assignments : List Text := []

namespace Settings

def realType? (name : Text) : Option Ty :=
  (Ty.builtin? name).filter fun t => t == .double || t == .single || t == .decimal

def options (s : Settings) : Except Failure Options :=
  match realType? s.realLiteral with
  | none => .error (.plain s!"invalid --real-literal {Text.quote s.realLiteral}")
  | some t =>
    .ok
      { caseSensitive := s.caseSensitive
        checked := s.checked
        integersAsDoubles := s.integersAsDoubles
        ignoreCase := s.ignoreCase
        realLiteral := t
        lexical := { dateFormat := s.dateFormat } }

def assigned (d : Desk) (assignment : Text) : Except Failure Desk :=
  match Text.cut? 0x3D assignment with
  | none => .error (.plain s!"invalid --var {Text.quote assignment}: want name=expression")
  | some (name, text) =>
    match d.assign name.trim.toString text with
    | (.ok (), d) => .ok d
    | (.error f, _) => .error f

/-- Defines given values in their order; what has no value is an object. -/
def withGiven (d : Desk) (given : List (String × Value)) : Except Failure Desk :=
  given.foldlM
    (fun d (name, v) => d.define name (if v.type?.isNone then some .object else none) v) d

/-- The desk of the settings: first the given values are defined, then the assignments are carried
out, each on the desk that those before it leave. -/
def desk (s : Settings) (host : Host) (world : Library.World)
    (given : Except Failure (List (String × Value))) :
    Except Failure Desk := do
  let o ← s.options
  let d ← Engine.newDesk host world o
  let d ← withGiven d (← given)
  s.assignments.foldlM assigned d

end Settings

end Formulary.Shell
