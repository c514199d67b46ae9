import Formulary.Value.Ty
import Formulary.Failure

/-!
# Overload resolution

Each candidate that can take the arguments gets a score, the mean of the scores of its arguments.
The lowest score wins; candidates that share it make the call ambiguous.
-/

namespace Formulary

/-- The type of the items of a slice, array or map, or of what a pointer points to. -/
def Ty.element? : Ty → Option Ty
  | .slice t _ | .array _ t _ | .pointer t _ | .map _ t _ => some t
  | _ => none

namespace Overload

/-- One overload. An extension takes its first parameter from the value it is called on. -/
structure Candidate (α : Type) where
  name : String
  params : List Ty
  variadic : Bool := false
  extension : Bool := false
  accessible : Bool := true
  payload : α

/-- The numbers scores are measured in: the mean of a total, the penalty for taking trailing
arguments one by one, and the score of an extension without arguments. -/
structure Scale (σ : Type) where
  mean : Int → Nat → σ
  penalty : σ → σ
  bare : σ
  less : σ → σ → Bool
  same : σ → σ → Bool

def Scale.double : Scale Float where
  mean total n := if n == 0 then 0 else Float.ofInt total / Float.ofNat n
  penalty x := x + 1
  bare := 0.1
  less x y := x < y
  same x y := x == y

variable {α σ : Type}

namespace Candidate

def taken (c : Candidate α) : List Ty := if c.extension then c.params.drop 1 else c.params

/-- The candidate as a call would be written. -/
def signature (c : Candidate α) : String :=
  let params := c.taken
  let last := params.length - 1
  let shown := params.zipIdx.map fun (p, i) =>
    if c.variadic && i == last then "..." ++ Ty.nameOf p.element? else p.name
  s!"{c.name}(" ++ ", ".intercalate shown ++ ")"

end Candidate

/-- A candidate that can take the arguments. `expanded` says that it takes trailing ones one by
one. -/
structure Match (α σ : Type) where
  candidate : Candidate α
  index : Nat
  score : σ
  expanded : Bool

/-- The type argument `i` is converted to. -/
def Match.paramType? (m : Match α σ) (i : Nat) : Option Ty :=
  let params := m.candidate.taken
  if m.expanded && params.length ≤ i + 1 then params.getLast?.bind Ty.element? else params[i]?

/-- The total score of arguments for parameters, if each fits. -/
def total (score : Ty → Ty → Int) : List Ty → List Ty → Option Int
  | [], _ => some 0
  | _, [] => none
  | a :: args, p :: params =>
    let s := score a p
    if s < 0 then none else (total score args params).map (s + ·)

/-- Whether a candidate can take arguments: no, yes, or it is beyond the rules to say. The last
happens to an extension whose only parameter is variadic. -/
inductive Fit (σ : Type) where
  | no
  | yes (score : σ) (expanded : Bool)
  | broken

/-- How a candidate takes its trailing arguments one by one. -/
def fitExpanded (scale : Scale σ) (score : Ty → Ty → Int) (params args : List Ty) : Fit σ :=
  match params.getLast? with
  | none => .broken
  | some last =>
    let fixed := params.length - 1
    if args.length < fixed then .no
    else
      match total score (args.take fixed) (params.take fixed) with
      | none => .no
      | some front =>
        match last.element? with
        | none => .broken
        | some element =>
          match total score (args.drop fixed) ((args.drop fixed).map fun _ => element) with
          | none => .no
          | some rest => .yes (scale.penalty (scale.mean (front + rest) args.length)) true

def fit (scale : Scale σ) (score : Ty → Ty → Int) (c : Candidate α) (args : List Ty) : Fit σ :=
  let params := c.taken
  if c.extension && c.params.isEmpty then .no
  else if c.extension && params.isEmpty && args.isEmpty then .yes scale.bare false
  else
    let direct := if args.length == params.length then total score args params else none
    match direct with
    | some t => .yes (scale.mean t args.length) false
    | none => if c.variadic then fitExpanded scale score params args else .no

inductive Fault where
  | none
  | denied (signature : String)
  | ambiguous (signatures : List String)
  | broken

/-- The candidates that can take the arguments, or nothing if one is beyond the rules. -/
def matches? (scale : Scale σ) (score : Ty → Ty → Int) (args : List Ty) :
    Nat → List (Candidate α) → Option (List (Match α σ))
  | _, [] => some []
  | i, c :: rest =>
    match fit scale score c args with
    | .broken => .none
    | .no => matches? scale score args (i + 1) rest
    | .yes s expanded => (matches? scale score args (i + 1) rest).map (⟨c, i, s, expanded⟩ :: ·)

/-- The first match with the lowest score, and how many later ones share it. A better match starts
the count again. -/
def best (scale : Scale σ) (m : Match α σ) (ties : Nat) : List (Match α σ) → Match α σ × Nat
  | [] => (m, ties)
  | n :: rest =>
    if scale.less n.score m.score then best scale n 0 rest
    else if scale.same n.score m.score then best scale m (ties + 1) rest
    else best scale m ties rest

/-- The best candidate for arguments of some types. -/
def resolve (scale : Scale σ) (score : Ty → Ty → Int) (candidates : List (Candidate α))
    (args : List Ty) :
    Except Fault (Match α σ) :=
  match matches? scale score args 0 candidates with
  | .none => .error .broken
  | some found =>
    match found.filter (·.candidate.accessible), found with
    | m :: rest, _ =>
      let (winner, ties) := best scale m 0 rest
      if 0 < ties then
        let tied := (m :: rest).filter fun n => scale.same n.score winner.score
        .error (.ambiguous (tied.map (·.candidate.signature)))
      else .ok winner
    | [], m :: _ => .error (.denied m.candidate.signature)
    | [], [] => .error .none

def typeList (ts : List Ty) : String := ", ".intercalate (ts.map Ty.name)

def Fault.failure (name : String) (args : List Ty) : Fault → Failure
  | .none =>
    .compile
      { reason := .undefinedName,
        detail := s!"no overload of {name} accepts ({typeList args})" }
  | .denied s => .compile { reason := .accessDenied, detail := s!"{s} is not accessible" }
  | .ambiguous ss =>
    let listed := " and ".intercalate ss
    .compile
      { reason := .ambiguousMatch,
        detail := s!"call to {name}({typeList args}) is ambiguous between {listed}" }
  | .broken => .broken Option.none

end Overload

end Formulary
