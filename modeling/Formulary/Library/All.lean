import Formulary.Library.Crypto
import Formulary.Library.Dates
import Formulary.Library.Math
import Formulary.Library.Strings
import Formulary.Session.Context

/-!
# All libraries
-/

namespace Formulary.Library

structure World where
  now : Calendar.Moment
  random : Nat → Nat

def all (world : World) : List Library :=
  [Math.library, Strings.library, Dates.library world.now, Crypto.library world.random]

def named? (world : World) (name : String) : Option Library := (all world).find? (·.name == name)

def imported (root : List Member) (l : Library) : List Member × Option String :=
  Imports.add [l.name] l.additions root

def everything (world : World) : List Member :=
  (all world).foldl (fun root l => (imported root l).1) []

end Formulary.Library
