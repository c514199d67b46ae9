import Formulary.Library.All
import Formulary.Session.Cache
import Formulary.Session.Desk

/-!
# Engines

An engine evaluates texts with every library at hand. What it compiles without variables it keeps,
so that the same text is compiled once.
-/

namespace Formulary

structure Engine where
  desk : Desk
  cache : Cache Text Compiled := .create 0

namespace Engine

def version : String := "v0.1.0-dev"

def newDesk (host : Host) (world : Library.World) (o : Options) : Except Failure Desk :=
  Desk.create host (Library.everything world) o

def create (host : Host) (world : Library.World) : Except Failure Engine :=
  (newDesk host world {}).map fun d => { desk := d }

def compile (e : Engine) (text : Text) : Except Failure Compiled × Engine :=
  let (r, cache) := e.cache.getOrMake text fun _ => e.desk.compile text
  (r, { e with cache := cache })

def require (e : Engine) (text : Text) : Except String Compiled × Engine :=
  let (r, e) := e.compile text
  (r.mapError fun f => s!"flee: Compile({Text.quote text}): {f.message}", e)

/-- Compiles a text on a new desk with variables and evaluates it once. -/
def evaluateOnce (host : Host) (world : Library.World) (o : Options)
    (vars : List (String × Value)) (text : Text) :
    Except Failure (Compiled × Value) := do
  let desk ← newDesk host world o
  let desk ← vars.foldlM (fun d v => d.define v.1 none v.2) desk
  let c ← desk.compile text
  let v ← (desk.run c).1
  .ok (c, v)

def evaluateOnceAs (host : Host) (world : Library.World) (o : Options)
    (vars : List (String × Value)) (t : Ty)
    (text : Text) : Except Failure Value := do
  let (c, v) ← evaluateOnce host world o vars text
  c.typed host t v

end Engine

end Formulary
