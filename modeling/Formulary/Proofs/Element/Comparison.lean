import Mathlib.Data.List.Basic
import Formulary.Element.Operation
import Formulary.Typing.Builtin

/-!
# Comparisons with their operands exchanged

Each operation that compares two values says the same of them in the other order, for the mirror
image of its operator: `<` becomes `>`, and `=` stays `=` (`Comparison.apply_mirror`). It gives a
boolean or breaks down, and `<>` gives the opposite of `=` (`Comparison.apply_notEqual_iff`). Behind
this stand the symmetry of equality on numbers, times and nested values, and the orders that
`Ordering.swap` turns round.
-/

namespace Formulary

open Float.Model (UnpackedFloat)

/-- Numbers are ordered the other way round with their places exchanged; what is no number stays
without order. -/
theorem swap_compare_unpacked (a b : UnpackedFloat) :
    (a.compare b).map Ordering.swap = b.compare a := by
  have hfinite : ∀ (e e' : Int) (m m' : Nat),
      ((compare e e').then (compare m m')).swap = (compare e' e).then (compare m' m) := by
    intro e e' m m'
    rw [Ordering.swap_then, Int.compare_swap, Nat.compare_swap]
  rcases a with ⟨⟨⟩⟩ | _ | ⟨⟨⟩⟩ | ⟨⟨⟩, m, e, h⟩ <;> rcases b with
    ⟨⟨⟩⟩ | _ | ⟨⟨⟩⟩ | ⟨⟨⟩, m', e', h'⟩ <;> try rfl
  · exact congrArg (fun o => some o.swap) (hfinite e e' m m')
  · exact congrArg some (hfinite e e' m m')

theorem beq_comm_unpacked (a b : UnpackedFloat) : a.beq b = b.beq a := by
  unfold UnpackedFloat.beq
  rw [← swap_compare_unpacked a b]
  cases a.compare b with
  | none => rfl
  | some o => cases o <;> rfl

theorem beq_comm_double (x y : Float) : (x == y) = (y == x) :=
  beq_comm_unpacked x.toModel.unpack y.toModel.unpack

theorem beq_comm_single (x y : Float32) : (x == y) = (y == x) :=
  beq_comm_unpacked x.toModel.unpack y.toModel.unpack

theorem Mark.same_comm (m n : Mark) : m.same n = n.same m := by
  cases m with
  | «at» a =>
    cases n with
    | «at» b => exact BEq.comm
    | _ => rfl
  | _ => cases n <;> rfl

namespace Value

theorem sameZone_comm (y z : Calendar.Zone) : sameZone y z = sameZone z y := by
  have hturn : ∀ (a b : Int) (n m : String), sameZone (.fixed a n) (.fixed b m) = true →
      sameZone (.fixed b m) (.fixed a n) = true := by
    intro a b n m
    simp only [sameZone, Bool.and_eq_true, beq_iff_eq]
    rintro ⟨⟨⟨⟨⟨rfl, hn⟩, hm⟩, hwhole⟩, hlow⟩, hhigh⟩
    exact ⟨⟨⟨⟨⟨rfl, hm⟩, hn⟩, hwhole⟩, hlow⟩, hhigh⟩
  cases y with
  | fixed a n =>
    cases z with
    | fixed b m => exact Bool.eq_iff_iff.2 ⟨hturn a b n m, hturn b a m n⟩
    | _ => rfl
  | _ => cases z <;> rfl

mutual

theorem sameValue_comm (u v : Value) : u.sameValue v = v.sameValue u := by
  cases u with
  | bool a =>
    cases v with
    | bool b => exact congrArg some BEq.comm
    | _ => rfl
  | int k a =>
    cases v with
    | int l b => exact congrArg some (congrArg₂ and BEq.comm BEq.comm)
    | _ => rfl
  | enum n k a =>
    cases v with
    | enum m l b => exact congrArg some (congrArg₂ and BEq.comm BEq.comm)
    | _ => rfl
  | char a =>
    cases v with
    | char b => exact congrArg some BEq.comm
    | _ => rfl
  | single a =>
    cases v with
    | single b => exact congrArg some (beq_comm_single a b)
    | _ => rfl
  | double a =>
    cases v with
    | double b => exact congrArg some (beq_comm_double a b)
    | _ => rfl
  | decimal a m =>
    cases v with
    | decimal b n => exact congrArg some (congrArg₂ and (m.same_comm n) BEq.comm)
    | _ => rfl
  | string a =>
    cases v with
    | string b => exact congrArg some BEq.comm
    | _ => rfl
  | dateTime a =>
    cases v with
    | dateTime b => exact congrArg some (congrArg₂ and BEq.comm (sameZone_comm a.zone b.zone))
    | _ => rfl
  | timeSpan a =>
    cases v with
    | timeSpan b => exact congrArg some BEq.comm
    | _ => rfl
  | record n as =>
    cases v with
    | record m bs =>
      simp only [sameValue]
      rw [sameValues_comm as bs, BEq.comm]
    | _ => rfl
  | missing t =>
    cases v with
    | missing u =>
      by_cases h : t = u
      · subst h
        rfl
      · simp [sameValue, h, Ne.symm h]
    | _ => rfl
  | pointer t m a =>
    cases v with
    | pointer u n b =>
      simp only [sameValue]
      rw [BEq.comm (a := t), BEq.comm (α := Option String), m.same_comm n]
    | _ => rfl
  | slice t m as =>
    cases v with
    | slice u n bs =>
      simp only [sameValue]
      rw [BEq.comm (a := t), BEq.comm (α := Option String)]
    | _ => rfl
  | array t as =>
    cases v with
    | array u bs =>
      simp only [sameValue]
      rw [sameValues_comm as bs, BEq.comm (a := t), BEq.comm (α := Option String),
        BEq.comm (a := as.length)]
    | _ => rfl
  | map k t m ks vs =>
    cases v with
    | map l u n ls us =>
      simp only [sameValue]
      rw [BEq.comm (a := k), BEq.comm (a := t), BEq.comm (α := Option String)]
    | _ => rfl
  | _ => cases v <;> rfl

theorem sameValues_comm (us vs : List Value) : sameValues us vs = sameValues vs us := by
  cases us with
  | nil => cases vs <;> rfl
  | cons a as =>
    cases vs with
    | nil => rfl
    | cons b bs => rw [sameValues, sameValues, sameValue_comm a b, sameValues_comm as bs]

end

theorem sharesStorage_comm (u v : Value) : u.sharesStorage v = v.sharesStorage u := by
  cases u with
  | slice t m as =>
    cases v with
    | slice u n bs => exact m.same_comm n
    | _ => rfl
  | map k t m ks vs =>
    cases v with
    | map l u n ls us => exact m.same_comm n
    | _ => rfl
  | _ => cases v <;> rfl

end Value

theorem Host.valuesEqual_comm (host : Host) (u v : Value) :
    host.valuesEqual u v = host.valuesEqual v u := by
  unfold Host.valuesEqual
  rw [Bool.or_comm, BEq.comm (a := u.isNil)]
  split
  · rfl
  · cases ht : u.type? with
    | none => cases v.type? <;> rfl
    | some t =>
      cases hu : v.type? with
      | none => rfl
      | some t' =>
        by_cases h : t = t'
        · subst h
          simp only [bne_self_eq_false, Bool.false_eq_true, if_false, Value.sharesStorage_comm u v,
            Value.sameValue_comm u v]
        · have h' : ¬t' = t := fun heq => h heq.symm
          simp [h, h']

/-- The comparison that says the same of two values in the other order. -/
def Operator.mirror : Operator → Operator
  | .less => .greater
  | .greater => .less
  | .lessEqual => .greaterEqual
  | .greaterEqual => .lessEqual
  | op => op

def Operator.isComparison : Operator → Bool
  | .equal | .notEqual | .less | .lessEqual | .greater | .greaterEqual => true
  | _ => false

theorem Operator.decides_mirror {op : Operator} (hop : op.isComparison = true) (o : Ordering) :
    op.mirror.decides o.swap = op.decides o := by
  cases op with
  | equal | notEqual | less | lessEqual | greater | greaterEqual => cases o <;> rfl
  | _ => cases hop

theorem doubleComparison_mirror {op : Operator} (hop : op.isComparison = true) (x y : Float) :
    doubleComparison op.mirror y x = doubleComparison op x y := by
  cases op with
  | equal => exact beq_comm_double y x
  | notEqual => exact congrArg not (beq_comm_double y x)
  | less | lessEqual | greater | greaterEqual => rfl
  | _ => cases hop

theorem swap_compareOfLessAndEq (x y : Int) :
    (compareOfLessAndEq x y).swap = compareOfLessAndEq y x :=
  Int.compare_swap x y

theorem Decimal.swap_compare (a b : Decimal) : (a.compare b).swap = b.compare a := by
  have hless : ∀ c d : Decimal, c.compare d =
    compareOfLessAndEq (c.rescale (min c.exponent d.exponent)).coefficient
      (d.rescale (min c.exponent d.exponent)).coefficient := fun _ _ => rfl
  rw [hless, hless, swap_compareOfLessAndEq, Int.min_comm]

namespace Builtin

open Standard

/-- The types that have built-in comparisons. -/
def ordered : List Ty := [.decimal, .dateTime, .timeSpan]

def order : Ty → Value → Value → Ordering
  | .decimal, a, b => Decimal.compare (decimalOf a) (decimalOf b)
  | .dateTime, a, b => compareOfLessAndEq (momentOf a).total (momentOf b).total
  | _, a, b => compareOfLessAndEq (spanOf a) (spanOf b)

def comparison (op : Operator) (t : Ty) : Function :=
  two t t .bool fun a b => .bool (op.decides (order t a b))

theorem comparisons_eq (op : Operator) : comparisons op = ordered.map fun t =>
    (op, comparison op t) := rfl

theorem swap_order (t : Ty) (a b : Value) : (order t a b).swap = order t b a := by
  cases t with
  | decimal => exact Decimal.swap_compare _ _
  | _ => exact swap_compareOfLessAndEq _ _

end Builtin

/-- A function of two values of one type: missing ones stand for the zero value. -/
theorem Host.invoke_two (host : Host) (t result : Ty) (f : Value → Value → Value) (a b : Value) :
    host.invoke (Builtin.two t t result f) [a, b] =
      let given (v : Value) := if v.type?.isNone then host.zero t else v
      if host.accepts t (given a) && host.accepts t (given b) then pure (f (given a) (given b))
      else breakdown := by
  simp [Host.invoke, Builtin.two]

/-- The same comparison of the two values in the other order. -/
theorem Host.invoke_comparison (host : Host) {op : Operator} (hop : op.isComparison = true)
    (t : Ty) (a b : Value) :
    host.invoke (Builtin.comparison op.mirror t) [b, a] =
      host.invoke (Builtin.comparison op t) [a, b] := by
  have horder : ∀ u v, op.mirror.decides (Builtin.order t v u) =
      op.decides (Builtin.order t u v) := by
    intro u v
    rw [← Builtin.swap_order, Operator.decides_mirror hop]
  simp only [Builtin.comparison, Host.invoke_two, horder, Bool.and_comm]

theorem Host.invoke_notEqual (host : Host) (t : Ty) (a b : Value) :
    host.invoke (Builtin.comparison .notEqual t) [a, b] =
      host.invoke (Builtin.comparison .equal t) [a, b] >>= fun v => Unary.not.apply host v := by
  simp only [Builtin.comparison, Host.invoke_two]
  generalize (if a.type?.isNone then host.zero t else a) = x
  generalize (if b.type?.isNone then host.zero t else b) = y
  cases host.accepts t x && host.accepts t y <;> rfl

theorem pure_bool_inj {x y : Bool} : (pure (.bool x) : Eval Value) = pure (.bool y) ↔ x = y := by
  refine ⟨fun h => ?_, congrArg fun b => pure (Value.bool b)⟩
  have hrun := congrArg (fun e : Eval Value => (e.run []).1) h
  cases hrun
  rfl

theorem breakdown_ne_pure {v : Value} : (breakdown : Eval Value) ≠ pure v := fun h =>
  nomatch congrArg (fun e : Eval Value => (e.run []).1) h

inductive Comparison where
  | texts
  | ordered (t : Ty)
  | numbers (t : Ty)
  | enums
  | objects
  deriving DecidableEq, Repr

namespace Comparison

def operation (ignoreCase : Bool) (op : Operator) : Comparison → Binary
  | texts => .textEqual ignoreCase (op == .notEqual)
  | ordered t => .overload op (Builtin.comparison op t)
  | numbers t => .compare op t
  | enums => .compareEnum op
  | objects => .sameObject (op == .notEqual)

def operand? : Comparison → Option Ty
  | ordered t | numbers t => some t
  | _ => none

variable {op : Operator} (host : Host) (ignoreCase : Bool) (c : Comparison) (a b : Value)

theorem mirror_beq_notEqual (op : Operator) : (op.mirror == .notEqual) = (op == .notEqual) := by
  cases op <;> rfl

/-- A comparison and its mirror image, with the operands exchanged. -/
theorem apply_mirror (hop : op.isComparison = true) :
    (c.operation ignoreCase op.mirror).apply host b a =
      (c.operation ignoreCase op).apply host a b := by
  have hdecides : ∀ x y : Int, op.mirror.decides (compareOfLessAndEq y x) =
      op.decides (compareOfLessAndEq x y) := by
    intro x y
    rw [← swap_compareOfLessAndEq, Operator.decides_mirror hop]
  cases c with
  | texts =>
    simp only [operation, mirror_beq_notEqual, Binary.apply]
    split
    · rename_i x y
      simp only [BEq.comm (a := x), BEq.comm (a := Text.fold x)]
    · rename_i hother
      split
      · exact absurd rfl (hother _ _ rfl)
      · rfl
  | ordered t => exact host.invoke_comparison hop t a b
  | numbers t =>
    simp only [operation, Binary.apply]
    split
    · simp only [hdecides, Bool.and_comm]
    · simp only [doubleComparison_mirror hop]
    · simp only [doubleComparison_mirror hop]
    · rename_i hint hdouble hsingle
      split
      · exact absurd rfl (hint _ _ _ _ _ rfl rfl)
      · exact absurd rfl (hdouble _ _ rfl rfl)
      · exact absurd rfl (hsingle _ _ rfl rfl)
      · rfl
  | enums =>
    simp only [operation, Binary.apply]
    split
    · simp only [hdecides]
    · rename_i hother
      split
      · exact absurd rfl (hother _ _ _ _ _ _ rfl)
      · rfl
  | objects => simp only [operation, mirror_beq_notEqual, Binary.apply, host.valuesEqual_comm b a]

/-- Two values are unequal where they are not equal. -/
theorem apply_notEqual :
    (c.operation ignoreCase .notEqual).apply host a b =
      (c.operation ignoreCase .equal).apply host a b >>= fun v => Unary.not.apply host v := by
  have hflip : ∀ same : Bool, (pure (.bool (same != true)) : Eval Value) =
      pure (.bool (same != false)) >>= fun v => Unary.not.apply host v := by
    intro same
    cases same <;> rfl
  cases c with
  | texts =>
    simp only [operation, Binary.apply]
    split
    · exact hflip _
    · rfl
  | ordered t => exact host.invoke_notEqual t a b
  | numbers t =>
    simp only [operation, Binary.apply]
    split
    · split <;> rfl
    all_goals rfl
  | enums =>
    simp only [operation, Binary.apply]
    split <;> rfl
  | objects =>
    simp only [operation, Binary.apply]
    split
    · exact hflip _
    · rfl

/-- A comparison gives a boolean or breaks down, and leaves the tally as it is. -/
theorem apply_settled :
    (∃ x, (c.operation ignoreCase op).apply host a b = pure (.bool x)) ∨
      (c.operation ignoreCase op).apply host a b = breakdown := by
  cases c with
  | texts =>
    simp only [operation, Binary.apply]
    split
    · exact .inl ⟨_, rfl⟩
    · exact .inr rfl
  | ordered t =>
    simp only [operation, Binary.apply, Builtin.comparison, Host.invoke_two]
    generalize (if a.type?.isNone then host.zero t else a) = x
    generalize (if b.type?.isNone then host.zero t else b) = y
    cases host.accepts t x && host.accepts t y with
    | true => exact .inl ⟨_, rfl⟩
    | false => exact .inr rfl
  | numbers t =>
    simp only [operation, Binary.apply]
    split
    · split
      · exact .inl ⟨_, rfl⟩
      · exact .inr rfl
    · exact .inl ⟨_, rfl⟩
    · exact .inl ⟨_, rfl⟩
    · exact .inr rfl
  | enums =>
    simp only [operation, Binary.apply]
    split
    · exact .inl ⟨_, rfl⟩
    · exact .inr rfl
  | objects =>
    simp only [operation, Binary.apply]
    split
    · exact .inl ⟨_, rfl⟩
    · exact .inr rfl

/-- Two values are found unequal exactly where they are found not to be equal. -/
theorem apply_notEqual_iff {holds : Bool} :
    (c.operation ignoreCase .equal).apply host a b = pure (.bool holds) ↔
      (c.operation ignoreCase .notEqual).apply host a b = pure (.bool !holds) := by
  rw [apply_notEqual]
  rcases @c.apply_settled .equal host ignoreCase a b with ⟨x, hx⟩ | hbroken
  · rw [hx]
    constructor
    · intro h
      rw [pure_bool_inj.1 h]
      rfl
    · intro h
      have hnot : (!x) = !holds := pure_bool_inj.1 h
      rw [Bool.not_inj hnot]
  · rw [hbroken]
    exact ⟨fun h => absurd h breakdown_ne_pure, fun h => absurd h breakdown_ne_pure⟩

end Comparison

end Formulary
