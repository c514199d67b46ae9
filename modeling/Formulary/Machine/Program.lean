import Formulary.Host.Basic

/-!
# Programs

A program is a list of steps on a stack of values. What a step does besides pushing, dropping and
jumping is an instruction of a type of its own, performed by a function given to the machine. A jump
past the last step ends the program, which must leave exactly one value. A listing is a program as
text, one step a line, with a label before each position that a jump goes to.
-/

namespace Formulary.Machine

/-- A step of a program. `τ` is what jumps name as their target, `ι` the type of instructions. -/
inductive Step (τ ι : Type) where
  | push (v : Value)
  | drop
  | jump (target : τ)
  | jumpIf (wanted : Bool) (target : τ)
  | act (instruction : ι)

namespace Step

variable {τ σ ι : Type}

def target? : Step τ ι → Option τ
  | .jump t | .jumpIf _ t => some t
  | _ => none

def retarget (f : τ → σ) : Step τ ι → Step σ ι
  | .push v => .push v
  | .drop => .drop
  | .jump t => .jump (f t)
  | .jumpIf b t => .jumpIf b (f t)
  | .act i => .act i

end Step

abbrev Stack := List Value

/-- A program, whose jumps name the position they go to. -/
structure Program (ι : Type) where
  steps : Array (Step Nat ι)

instance {ι : Type} : Inhabited (Program ι) := ⟨⟨#[]⟩⟩

variable {ι : Type}

def Step.run (perform : ι → Stack → Eval Stack) (position : Nat) (stack : Stack) :
    Step Nat ι → Eval (Nat × Stack)
  | .push v => pure (position + 1, v :: stack)
  | .drop =>
    match stack with
    | _ :: rest => pure (position + 1, rest)
    | [] => breakdown
  | .jump t => pure (t, stack)
  | .jumpIf wanted t =>
    match stack with
    | .bool b :: rest => pure (if b == wanted then t else position + 1, rest)
    | _ => breakdown
  | .act i => do
    let stack ← perform i stack
    pure (position + 1, stack)

namespace Program

def size (p : Program ι) : Nat := p.steps.size

/-- Runs at most so many steps from a position; a program that is not done by then is broken off. -/
def runFrom (p : Program ι) (perform : ι → Stack → Eval Stack) : Nat → Nat → Stack → Eval Stack
  | fuel, position, stack =>
    match p.steps[position]? with
    | none => pure stack
    | some s =>
      match fuel with
      | 0 => breakdown
      | fuel + 1 => do
        let (next, stack) ← s.run perform position stack
        runFrom p perform fuel next stack

def result : Stack → Eval Value
  | [v] => pure v
  | stack => failed (.detailed .stackImbalance s!"depth {stack.length}")

def run (p : Program ι) (perform : ι → Stack → Eval Stack) (fuel : Nat) : Eval Value := do
  result (← p.runFrom perform fuel 0 [])

end Program

/-- How many steps a program may have unless it is said otherwise. -/
def defaultLimit : Nat := 65536

def limitOf (n : Int) : Nat := if n ≤ 0 then defaultLimit else n.toNat

/-- The error of a program with too many steps. -/
def tooLong (limit : Nat) : CompileError :=
  { reason := .tooComplex, detail := s!"expression needs more than {limit} instructions" }

section Listing

variable {ι : Type}

/-- A constant in a listing: strings and characters quoted, other values with their type. -/
def constantText (v : Value) : String :=
  match v with
  | .nil => "null"
  | .string t => Text.quote t
  | .char c => Text.quoteCode c
  | v => v.shown.toString ++ s!" ({(v.type?.getD .null).native})"

def labelText (position : Nat) : String := "L" ++ Number.padded 4 position

def Step.describe (describe : ι → String × String) : Step Nat ι → String × String
  | .push v => ("ldc", constantText v)
  | .drop => ("pop", "")
  | .jump t => ("br", labelText t)
  | .jumpIf true t => ("brtrue", labelText t)
  | .jumpIf false t => ("brfalse", labelText t)
  | .act i => describe i

/-- A line of a listing; the arguments stand in one column. -/
def lineText (position : Nat) (name argument : String) : String :=
  let start := "  " ++ Number.padded 4 position ++ "  "
  if argument.isEmpty then start ++ name ++ "\n"
  else start ++ name ++ String.ofList (List.replicate (10 - name.length) ' ') ++ " " ++
    argument ++ "\n"

def Program.listing (p : Program ι) (describe : ι → String × String) : String :=
  let targets := p.steps.toList.filterMap Step.target?
  let label (i : Nat) : String := if targets.contains i then labelText i ++ ":\n" else ""
  let lines := p.steps.toList.zipIdx.map fun (s, i) =>
    let (name, argument) := s.describe describe
    label i ++ lineText i name argument
  String.join lines ++ label p.size

end Listing

end Formulary.Machine
