import Formulary.Library.Basic
import Formulary.Proofs.Value.Whole

/-!
# Calling the functions of a library

A library answers a call by the name of a function and its arguments. Integers that fit 32 bits are
handed over and given back as they are.
-/

namespace Formulary.Library

/-- The function of a name for a number of arguments; the first one counts. -/
def function? (l : Library) (name : String) (count : Nat) : Option Function :=
  (l.functions.find? fun f => f.1 == name && f.2.signature.params.length == count).map (·.2)

def call (l : Library) (name : String) (args : List Value) : Option (Eval Value) :=
  (l.function? name args.length).map fun f => f.body args

def Gives (l : Library) (name : String) (args : List Value) (v : Value) : Prop :=
  l.call name args = some (pure v)

theorem holds_int_iff {n : Int} : IntKind.int.holds n = true ↔ -2147483648 ≤ n ∧ n ≤ 2147483647 :=
  IntKind.holds_iff

theorem int_eq {n : Int} (h : IntKind.int.holds n = true) : int n = .int .int n := by
  rw [int, Value.ofInt, IntKind.wrap_of_holds h]

/-- What a function that can fail answers for an outcome. -/
def answer : Except Failure Value → Eval Value
  | .ok v => pure v
  | .error e => failed e

/-- A value is answered exactly for an outcome that is this value. -/
theorem answer_eq_pure_iff {r : Except Failure Value} {v : Value} :
    answer r = pure v ↔ r = .ok v := by
  constructor
  · intro h
    have hrun : (answer r [] : Except Failure Value × Tally) = (.ok v, []) := congrFun h []
    cases r with
    | ok w => exact congrArg Prod.fst hrun
    | error e => cases congrArg Prod.fst hrun
  · rintro rfl
    rfl

/-- A function that can fail gives the values that are its outcomes. -/
theorem gives_fallible_iff {l : Library} {name : String} {args : List Value} {v : Value}
    {params : List Ty} {result : Ty} {f : List Value → Except Failure Value}
    (h : l.function? name args.length = some (fallible params result f)) :
    l.Gives name args v ↔ f args = .ok v := by
  have hcall : l.call name args = some (answer (f args)) := by
    rw [call, h]
    rfl
  rw [Gives, hcall, Option.some_inj, answer_eq_pure_iff]

/-- A call gives one value only. -/
theorem Gives.unique {l : Library} {name : String} {args : List Value} {v w : Value}
    (hv : l.Gives name args v)
    (hw : l.Gives name args w) : v = w := by
  have hpure : answer (.ok v) = pure w := Option.some.inj (hv.symm.trans hw)
  exact Except.ok.inj (answer_eq_pure_iff.1 hpure)

end Formulary.Library
