import Formulary.Element.Evaluate
import Formulary.Machine.Assembly

/-!
# Code generation

Elements as assemblies for the machine. Operands leave their values on the stack, the operation
after them takes its operands from there. The patterns with jumps:

```
if(c, a, b)      c  brfalse b  a  br end  b x in (a, b)      x  dup-test-a  brtrue found  dup-test-b
brtrue found  pop  false  br end  found: pop  true a and b or c     a  brfalse c  b  brtrue true  c
br end  true: true
```

A tree of `and` and `or` is one sequence: each operand jumps straight to the operand where
evaluation goes on once its value is known, or to the value that is then the result. Such a goal
gets its label with the first jump to it.
-/

namespace Formulary

open Machine

inductive Instruction where
  | convert (name : String) (type : Ty) (how : Conversion)
  | unary (op : Unary) (type : Ty)
  | binary (op : Binary) (type : Ty)
  | duplicate
  | contains (type : Ty)
  | owner
  | read (member : Member)
  | call (name : String) (fn : Function) (spread : Bool) (count : Nat)
  | invoke (name : String) (signature : Signature) (spread : Bool) (count : Nat)
  | variable (name : String) (type : Ty)
  | demand (name : String) (type : Ty) (count : Nat)
  | index (type : Ty)

namespace Instruction

def describe : Instruction → String × String
  | .convert name t _ => (name, t.name)
  | .unary op t => (op.name, t.name)
  | .binary op t => (op.name, t.name)
  | .duplicate => ("dup", "")
  | .contains t => ("contains", t.name)
  | .owner => ("ldowner", "")
  | .read m => ("ldfld", m.name)
  | .call name .. | .invoke name .. => ("call", name)
  | .variable name _ => ("ldvar", name)
  | .demand name .. => ("callvar", name)
  | .index t => ("ldelem", t.name)

/-- The latest values of a stack in the order they were pushed, and the rest. -/
def popMany (count : Nat) (stack : Stack) : Eval (List Value × Stack) :=
  if stack.length < count then breakdown else pure ((stack.take count).reverse, stack.drop count)

def perform (env : Environment) : Instruction → Stack → Eval Stack
  | .convert _ _ how, v :: rest => do
    let r ← how.apply env.host v
    pure (r :: rest)
  | .unary op _, v :: rest => do
    let r ← op.apply env.host v
    pure (r :: rest)
  | .binary op _, b :: a :: rest => do
    let r ← op.apply env.host a b
    pure (r :: rest)
  | .duplicate, v :: rest => pure (v :: v :: rest)
  | .contains _, v :: c :: rest => do
    let found ← env.host.contains v c
    pure (.bool found :: rest)
  | .owner, rest => pure (env.owner :: rest)
  | .read m, v :: rest => do
    let r ← env.host.readMember m v
    pure (r :: rest)
  | .call _ fn spread count, stack => do
    let (args, rest) ← popMany count stack
    let r ← env.host.callFunction fn args spread
    pure (r :: rest)
  | .invoke name signature spread count, stack => do
    let (args, rest) ← popMany count stack
    match rest with
    | v :: rest => do
      let r ← env.host.callMethod name signature v args spread
      pure (r :: rest)
    | [] => breakdown
  | .variable name t, rest => do
    let r ← env.load name t
    pure (r :: rest)
  | .demand name t count, stack => do
    let (args, rest) ← popMany count stack
    let r ← env.demand name t args
    pure (r :: rest)
  | .index _, i :: c :: rest => do
    let r ← env.host.item i c
    pure (r :: rest)
  | _, _ => breakdown

end Instruction

def Condition.count : Condition → Nat
  | .operand _ => 1
  | .join _ left right => left.count + right.count

/-- The operators between the operands of a condition from left to right, each with the number of
operands on its right side. -/
def Condition.operators : Condition → List (Logic × Nat)
  | .operand _ => []
  | .join op left right => left.operators ++ (op, right.count) :: right.operators

inductive Goal where
  | operand (place : Nat)
  | value (b : Bool)
  deriving DecidableEq, Repr

/-- A tree of conditions that is being written: the place of the operand that comes next, the
operators from there on, and the labels of the goals jumped to so far. -/
structure Chain where
  sheet : Sheet Instruction
  place : Nat := 0
  later : List (Logic × Nat)
  labels : List (Goal × Nat) := []

namespace Chain

/-- Where evaluation goes on after an operand of an operator of some kind has decided: how many of
the following operands are skipped, or `none` for the end. The right sides of operators of the same
kind are skipped; `hidden` operators stand within a right side that is already skipped. -/
def resume? (kind : Logic) (skipped hidden : Nat) : List (Logic × Nat) → Option Nat
  | [] => none
  | (other, right) :: rest =>
    match hidden with
    | h + 1 => resume? kind skipped h rest
    | 0 => if other == kind then resume? kind (skipped + right) (right - 1) rest else some skipped

/-- The number of operands skipped from the operator on, if evaluation goes on at one. -/
def skip? (kind : Logic) (right : Nat) (later : List (Logic × Nat)) : Option Nat :=
  resume? kind right (right - 1) later

/-- The goal of an operand at a place that decides the operator after it. -/
def goal (place : Nat) (op : Logic) (right : Nat) (later : List (Logic × Nat)) : Goal :=
  match skip? op right later with
  | some n => .operand (place + 1 + n)
  | none => .value op.decisive

def label? (c : Chain) (g : Goal) : Option Nat := (c.labels.find? (·.1 == g)).map (·.2)

def withLabel (c : Chain) (g : Goal) : Nat × Chain :=
  match c.label? g with
  | some l => (l, c)
  | none =>
    (c.sheet.labels,
      { c with sheet := c.sheet.reserve 1, labels := (g, c.sheet.labels) :: c.labels })

/-- The chain before the next operand, whose label is marked if it has one. -/
def arrive (c : Chain) : Chain :=
  match c.label? (.operand c.place) with
  | some l => { c with sheet := c.sheet.mark l }
  | none => c

/-- The chain after an operand: a jump if its value decides, or after the last operand a jump to the
end. -/
def leave (finish : Nat) (c : Chain) : Chain :=
  match c.later with
  | [] => { c with sheet := c.sheet.step (.jump finish), place := c.place + 1 }
  | (op, right) :: later =>
    let (l, c) := c.withLabel (goal c.place op right later)
    { c with sheet := c.sheet.step (.jumpIf op.decisive l), place := c.place + 1, later := later }

/-- The end of a chain: the values that were jumped to, false first. -/
def close (finish : Nat) (c : Chain) : Sheet Instruction :=
  let whenFalse : Sheet Instruction :=
    match c.label? (.value false) with
    | some l =>
      let s := (c.sheet.mark l).step (.push (.bool false))
      if (c.label? (.value true)).isSome then s.step (.jump finish) else s
    | none => c.sheet
  let whenTrue : Sheet Instruction :=
    match c.label? (.value true) with
    | some l => (whenFalse.mark l).step (.push (.bool true))
    | none => whenFalse
  whenTrue.mark finish

end Chain

mutual

def Element.write : Element → Sheet Instruction → Sheet Instruction
  | .constant _ v _, s => s.step (.push v)
  | .convert name how t inner, s =>
    match how with
    | some c => (inner.write s).step (.act (.convert name t c))
    | none => inner.write s
  | .unary op _ operand, s => (operand.write s).step (.act (.unary op operand.type))
  | .binary op _ left right, s => (right.write (left.write s)).step (.act (.binary op left.type))
  | .choose _ condition whenTrue whenFalse, s =>
    let otherwise := s.labels
    let finish := s.labels + 1
    let s := (condition.write (s.reserve 2)).step (.jumpIf false otherwise)
    let s := (whenTrue.write s).step (.jump finish)
    (whenFalse.write (s.mark otherwise)).mark finish
  | .logic condition, s =>
    let finish := s.labels
    (condition.write finish { sheet := s.reserve 1, later := condition.operators }).close finish
  | .duplicate _, s => s.step (.act .duplicate)
  | .among operand tests, s =>
    let found := s.labels
    let finish := s.labels + 1
    let s := Element.writeTests found tests (operand.write (s.reserve 2))
    let s := ((s.step .drop).step (.push (.bool false))).step (.jump finish)
    (((s.mark found).step .drop).step (.push (.bool true))).mark finish
  | .contains collection operand, s =>
    (operand.write (collection.write s)).step (.act (.contains collection.type))
  | .owner _, s => s.step (.act .owner)
  | .read m _ receiver, s => (receiver.write s).step (.act (.read m))
  | .call name fn spread _ args, s =>
    (Element.writeAll args s).step (.act (.call name fn spread args.length))
  | .invoke name signature spread _ receiver args, s =>
    (Element.writeAll args (receiver.write s)).step
      (.act (.invoke name signature spread args.length))
  | .variable name t, s => s.step (.act (.variable name t))
  | .demand name t args, s => (Element.writeAll args s).step (.act (.demand name t args.length))
  | .index _ receiver position, s =>
    (position.write (receiver.write s)).step (.act (.index receiver.type))

def Element.writeAll : List Element → Sheet Instruction → Sheet Instruction
  | [], s => s
  | e :: es, s => Element.writeAll es (e.write s)

/-- Writes the tests of a membership test; each that holds jumps to a label. -/
def Element.writeTests (found : Nat) : List Element → Sheet Instruction → Sheet Instruction
  | [], s => s
  | test :: tests, s => Element.writeTests found tests ((test.write s).step (.jumpIf true found))

/-- Writes the operands of a condition from left to right, each with its jump. -/
def Condition.write (finish : Nat) : Condition → Chain → Chain
  | .operand e, c =>
    let c := c.arrive
    { c with sheet := e.write c.sheet }.leave finish
  | .join _ left right, c => right.write finish (left.write finish c)

end

def Element.program (limit : Nat) (e : Element) : Except AssemblyFault (Program Instruction) :=
  (e.write {}).program limit

/-- The value of a program of forward code. -/
def runProgram (env : Environment) (p : Program Instruction) : Eval Value :=
  p.run (Instruction.perform env) p.size

end Formulary
