import Formulary.Element.Basic

/-!
# Direct evaluation

The value of an element by recursion on the tree. Operands are evaluated from left to right, a
collection before what is searched in it; a choice evaluates one branch, `and` and `or` stop at the
operand that decides, and a membership test evaluates its operand once. A duplicate stands for the
value evaluated last before it.
-/

namespace Formulary

def truth : Value → Eval Bool
  | .bool b => pure b
  | _ => breakdown

/-- The boolean that makes the right side of an operator superfluous. -/
def Logic.decisive : Logic → Bool
  | .and => false
  | .or => true

variable (env : Environment)

mutual

/-- The value of an element; `last` is the value evaluated before it. -/
def Element.eval (last : Option Value) : Element → Eval Value
  | .constant _ v _ => pure v
  | .convert _ how _ inner => do
    let v ← inner.eval last
    match how with
    | some c => c.apply env.host v
    | none => pure v
  | .unary op _ operand => do
    let v ← operand.eval last
    op.apply env.host v
  | .binary op _ left right => do
    let a ← left.eval last
    let b ← right.eval (some a)
    op.apply env.host a b
  | .choose _ condition whenTrue whenFalse => do
    let v ← condition.eval last
    if ← truth v then whenTrue.eval last else whenFalse.eval last
  | .logic condition => condition.eval last
  | .duplicate _ =>
    match last with
    | some v => pure v
    | none => breakdown
  | .among operand tests => do
    let v ← operand.eval last
    let found ← Element.anyOf v tests
    pure (.bool found)
  | .contains collection operand => do
    let c ← collection.eval last
    let v ← operand.eval (some c)
    let found ← env.host.contains v c
    pure (.bool found)
  | .owner _ => pure env.owner
  | .read member _ receiver => do
    let v ← receiver.eval last
    env.host.readMember member v
  | .call _ fn spread _ args => do
    let vs ← Element.evalAll last args
    env.host.callFunction fn vs spread
  | .invoke name signature spread _ receiver args => do
    let v ← receiver.eval last
    let vs ← Element.evalAll (some v) args
    env.host.callMethod name signature v vs spread
  | .variable name t => env.load name t
  | .demand name t args => do
    let vs ← Element.evalAll last args
    env.demand name t vs
  | .index _ receiver position => do
    let c ← receiver.eval last
    let i ← position.eval (some c)
    env.host.item i c

def Element.evalAll (last : Option Value) : List Element → Eval (List Value)
  | [] => pure []
  | e :: rest => do
    let v ← e.eval last
    let vs ← Element.evalAll (some v) rest
    pure (v :: vs)

/-- Whether one of the tests of a value holds; the tests after it are left out. -/
def Element.anyOf (v : Value) : List Element → Eval Bool
  | [] => pure false
  | test :: rest => do
    let r ← test.eval (some v)
    if ← truth r then pure true else Element.anyOf v rest

def Condition.eval (last : Option Value) : Condition → Eval Value
  | .operand e => e.eval last
  | .join op left right => do
    let a ← left.eval last
    let b ← truth a
    if b == op.decisive then pure (.bool b) else right.eval last

end

end Formulary
