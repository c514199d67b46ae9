import Formulary.Machine.Program

/-!
# Assembly

Programs written with named labels: a label marks the position of the step after it, and jumps name
labels, forward or backward.
-/

namespace Formulary.Machine

inductive Line (ι : Type) (τ : Type := String) where
  | mark (label : τ)
  | step (s : Step τ ι)

inductive AssemblyFault where
  | tooLong (limit : Nat)
  | markedTwice (label : Nat)
  | unmarked (position label : Nat)
  deriving DecidableEq, Repr

def AssemblyFault.failure : AssemblyFault → Failure
  | .tooLong limit => .compile (Machine.tooLong limit)
  | .markedTwice l => .plain s!"vm: label {l} marked twice"
  | .unmarked i l => .plain s!"vm: branch at {i} to unmarked label {l}"

variable {ι τ : Type} [DecidableEq τ]

def Line.label? : Line ι τ → Option τ
  | .mark l => some l
  | .step s => s.target?

/-- The number of a label among the lines: labels are counted in the order they are first named. -/
def labelNumber (lines : List (Line ι τ)) (label : τ) : Nat :=
  (lines.filterMap Line.label?).eraseDups.idxOf label

structure Draft (ι : Type) (τ : Type := String) where
  steps : List (Step τ ι) := []
  count : Nat := 0
  marks : List (τ × Nat) := []
  fault : Option AssemblyFault := none

def Draft.position? (d : Draft ι τ) (label : τ) : Option Nat :=
  (d.marks.find? (·.1 == label)).map (·.2)

/-- The draft with one more line. Steps beyond the limit are left out. -/
def Draft.add (limit : Nat) (number : τ → Nat) (d : Draft ι τ) : Line ι τ → Draft ι τ
  | .mark l =>
    let again := if (d.position? l).isSome then some (.markedTwice (number l)) else none
    { d with marks := (l, d.count) :: d.marks, fault := d.fault.or again }
  | .step s =>
    if limit ≤ d.count then { d with fault := d.fault.or (some (.tooLong limit)) }
    else { d with steps := s :: d.steps, count := d.count + 1 }

/-- The first jump to a label that is not marked. -/
def Draft.unmarked? (number : τ → Nat) (d : Draft ι τ) : Option AssemblyFault :=
  d.steps.reverse.zipIdx.findSome? fun (s, i) =>
    match s.target? with
    | some l => if (d.position? l).isNone then some (.unmarked i (number l)) else none
    | none => none

/-- The program of an assembly whose labels have numbers, or what is wrong with it and how many
steps it got to. -/
def assembleBy (number : τ → Nat) (limit : Nat) (lines : List (Line ι τ)) :
    Except (AssemblyFault × Nat) (Program ι) :=
  let draft := lines.foldl (Draft.add limit number) {}
  match draft.fault.or (draft.unmarked? number) with
  | some fault => .error (fault, draft.count)
  | none =>
    .ok ⟨(draft.steps.reverse.map fun s => s.retarget fun l => (draft.position? l).getD 0).toArray⟩

/-- The program of an assembly, or what is wrong with it and how many steps it got to. -/
def assemble (limit : Nat) (lines : List (Line ι τ)) : Except (AssemblyFault × Nat) (Program ι) :=
  assembleBy (labelNumber lines) limit lines

structure Sheet (ι : Type) where
  lines : List (Line ι Nat) := []
  labels : Nat := 0

namespace Sheet

def step (s : Sheet ι) (x : Step Nat ι) : Sheet ι := { s with lines := .step x :: s.lines }

def mark (s : Sheet ι) (label : Nat) : Sheet ι := { s with lines := .mark label :: s.lines }

/-- The sheet with more labels in use; the new ones are counted from the number of those before. -/
def reserve (s : Sheet ι) (count : Nat) : Sheet ι := { s with labels := s.labels + count }

def program (limit : Nat) (s : Sheet ι) : Except AssemblyFault (Program ι) :=
  (assembleBy id limit s.lines.reverse).mapError (·.1)

end Sheet

end Formulary.Machine
