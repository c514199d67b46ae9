import Formulary.Proofs.Build.Operated
import Formulary.Proofs.Element.Exactness
import Formulary.Proofs.Element.Results
import Formulary.Proofs.Value.Whole

/-!
# Calculations with integers

Numerals, variables and operators of arithmetic, apart from how they are written. A calculation has
an exact value over all integers, and a type by the rules for operands. The element it is built to,
with tests for overflow, has the exact value or fails because a divisor is zero or because the exact
value of a part is not held by the type of the part.
-/

namespace Formulary

inductive Calculation where
  | numeral (hex : Bool) (image : Text)
  | named (name : String)
  | binary (op : BasicOperator) (left right : Calculation)
  deriving DecidableEq, Repr

/-- The type and the number of a variable that holds a plain integer. One that was never given a
value counts as zero. -/
def Store.number? (s : Store) (name : String) : Option (IntKind × Int) :=
  match s.find? name with
  | some ⟨_, .int k, .value (.int j n)⟩ => if j == k && k.holds n then some (k, n) else none
  | some ⟨_, .int k, .value .nil⟩ => some (k, 0)
  | _ => none

/-- The type in which two integers are computed with. -/
def Typing.operandKind? (a b : IntKind) : Option IntKind :=
  match (operandType? (.int a) (.int b)).map widened with
  | some (.int k) => some k
  | _ => none

namespace Calculation

def names : Calculation → List String
  | .numeral .. => []
  | .named name => [name]
  | .binary _ l r => l.names ++ r.names

def parts : Calculation → List Calculation
  | .numeral hex image => [.numeral hex image]
  | .named name => [.named name]
  | .binary op l r => .binary op l r :: (l.parts ++ r.parts)

/-- The value over all integers, unless something is divided by zero. -/
def exact (numbers : String → Option (IntKind × Int)) : Calculation → Option Int
  | .numeral hex image => some (Build.readInteger hex image).1
  | .named name => (numbers name).map (·.2)
  | .binary op l r => do
    let a ← l.exact numbers
    let b ← r.exact numbers
    op.exact a b

/-- The type of a calculation: that of the literal or of the variable, or the one both operands are
converted to. -/
def kind? (numbers : String → Option (IntKind × Int)) : Calculation → Option IntKind
  | .numeral hex image =>
    let (n, suffix) := Build.readInteger hex image
    match Build.integerValue? false false n suffix with
    | some (.int k _) => some k
    | _ => none
  | .named name => (numbers name).map (·.1)
  | .binary _ l r => do
    let a ← l.kind? numbers
    let b ← r.kind? numbers
    Typing.operandKind? a b

/-- A failure that a calculation can have: a divisor is zero, or the value of a part is not one of
its type. -/
def Fails (numbers : String → Option (IntKind × Int)) (c : Calculation) (f : Failure) : Prop :=
  (f.core = .fault .divideByZero ∧ ∃ op l r, binary op l r ∈ c.parts ∧ op.divides = true ∧
    r.exact numbers = some 0) ∨
  (f.core = .fault .overflow ∧ ∃ p ∈ c.parts, ∃ k n, p.kind? numbers = some k ∧
    p.exact numbers = some n ∧
    k.holds n = false)

def element? (s : Scope) : Calculation → Option Element
  | .numeral hex image =>
    (Build.number s.options (if hex then .hex else .integer) image false).toOption
  | .named name => ((Build.firstName s name).bind Build.Subject.element).toOption
  | .binary op l r => do
    let a ← l.element? s
    let b ← r.element? s
    (Build.arithmetic s op.operator a b).toOption

/-- The names of a calculation are variables of a scope, and the store has plain integers of the
same types for them. -/
def Plain (s : Scope) (store : Store) (c : Calculation) : Prop :=
  ∀ name ∈ c.names, ∃ k n, Build.firstName s name = .ok (.value (.variable name (.int k))) ∧
    store.number? name = some (k, n)

end Calculation

namespace Typing

theorem map_widened_operandType? (a b : IntKind) :
    (operandType? (.int a) (.int b)).map widened = (operandKind? a b).map .int := by
  cases a <;> cases b <;> rfl

/-- The operands of an operator are converted to a type that holds all their values. -/
theorem holds_of_operandKind? {a b k : IntKind} (h : operandKind? a b = some k) (n : Int) :
    (a.holds n = true → k.holds n = true) ∧ (b.holds n = true → k.holds n = true) := by
  have hspan : ∀ x y, (operandKind? x y).all (fun j =>
      (j.low ≤ x.low && x.high ≤ j.high) && (j.low ≤ y.low && y.high ≤ j.high)) = true := by
    intro x y
    cases x <;> cases y <;> rfl
  have hrange := hspan a b
  rw [h] at hrange
  simp only [Option.all_some, Bool.and_eq_true, decide_eq_true_eq] at hrange
  simp only [IntKind.holds_iff]
  omega

end Typing

/-- A number as it is returned where a type is declared: another type of numbers converts it, an
interface takes it as it is. -/
def Value.returnedAs (t : Ty) (v : Value) : Value := if t.isNumber then v.toNumeric t else v

/-- A number that a type of integers holds stays the same when it is converted to it. -/
theorem Value.toNumeric_int {k : IntKind} {n : Int} (j : IntKind) (h : k.holds n = true) :
    (Value.int j n).toNumeric (.int k) = .int k n := by
  have hwhole := toNumeric_whole (v := .int j n) (q := n) rfl (.int k)
  rw [towardZero_intCast] at hwhole
  exact hwhole.trans (congrArg (Value.int k) (IntKind.wrap_of_holds h))

theorem Value.returnedAs_int {k : IntKind} {n : Int} (j : IntKind) (h : k.holds n = true) :
    (Value.int j n).returnedAs (.int k) = .int k n := toNumeric_int j h

namespace Build

variable {s : Scope} {x e : Element} {t : Ty} {env : Environment} {last : Option Value}

theorem eval_implicit_of_failed {f : Failure} (h : s.implicit x t = .ok e)
    (hx : x.eval env last = failed f) :
    e.eval env last = failed f := by
  unfold Scope.implicit at h
  split at h
  · cases h
    exact hx
  · split at h
    · cases h
      rw [Element.eval, hx]
      rfl
    · cases h

/-- Without conversions of the host, an integer is converted as a number, or not at all. -/
theorem eval_implicit_of_pure {k : IntKind} {n : Int} (hops : s.operators.implicit = [])
    (h : s.implicit x t = .ok e)
    (htype : x.type = .int k) (hx : x.eval env last = pure (.int k n)) (hn : k.holds n = true) :
    e.eval env last = pure ((Value.int k n).returnedAs t) := by
  unfold Scope.implicit at h
  rw [htype] at h
  split at h
  · rename_i heq
    obtain rfl : .int k = t := by simpa using heq
    cases h
    rw [hx, Value.returnedAs_int k hn]
  · rename_i hne
    split at h
    · rename_i how hhow
      cases h
      rw [Element.eval, hx]
      have huser : s.operators.implicit? (.int k) t = none := by rw [Operators.implicit?, hops]; rfl
      unfold Typing.implicit? at hhow
      rw [huser] at hhow
      rw [if_neg hne, if_neg (by simp)] at hhow
      simp only at hhow
      split at hhow
      · rename_i hwidens
        cases hhow
        have hnumber := Typing.isNumber_of_widens hwidens (by simpa using hne)
        rw [Value.returnedAs, if_pos hnumber]
        show convertNumeric t (.int k n) = _
        unfold convertNumeric
        split <;> first | rfl | simp_all
      · split at hhow
        · rename_i himplements
          cases hhow
          have hnumber : t.isNumber = false := by
            rw [Host.implements, Bool.and_eq_true] at himplements
            cases t <;> first | rfl | cases himplements.1
          rw [Value.returnedAs, if_neg (by rw [hnumber]; decide)]
          rfl
        · cases hhow
    · cases h

/-- Arithmetic on integers: both operands are converted to the type that holds the values of
both. -/
theorem arithmetic_int {op : BasicOperator} {l r : Element} {a b : IntKind} (hl : l.type = .int a)
    (hr : r.type = .int b) (h : arithmetic s op.operator l r = .ok e) :
    ∃ k x y, Typing.operandKind? a b = some k ∧ s.implicit l (.int k) = .ok x ∧
      s.implicit r (.int k) = .ok y ∧
      e = .binary (.arithmetic op.operator (.int k) s.options.checked) (.int k) x y := by
  have hkind := Typing.map_widened_operandType? a b
  unfold arithmetic at h
  rw [if_neg (by rw [hl, hr]; simp), overloadedBinary?_eq_none (by rw [hl]; rfl)
    (by rw [hr]; rfl), hl, hr] at h
  obtain ⟨_, hnone, h⟩ := bind_eq_ok.1 h
  cases hnone
  simp only at h
  rw [if_neg (by cases op <;> decide)] at h
  split at h
  · cases h
  · rename_i t ht
    rw [ht] at hkind
    obtain ⟨k, hk, hwidened⟩ := Option.map_eq_some_iff.1 hkind.symm
    obtain ⟨⟨x, y⟩, hboth, h⟩ := bind_eq_ok.1 h
    cases h
    rw [← hwidened] at hboth ⊢
    obtain ⟨x', hx, hboth⟩ := bind_eq_ok.1 hboth
    obtain ⟨y', hy, hboth⟩ := bind_eq_ok.1 hboth
    cases hboth
    exact ⟨k, x, y, hk, hx, hy, rfl⟩

/-- The constant of an integer numeral is of the first type its suffix allows that holds it. -/
theorem integerValue?_held {n : Nat} {suffix : String} {v : Value}
    (h : integerValue? false false n suffix = some v) :
    ∃ k : IntKind, v = .int k n ∧ k.holds n = true := by
  have hfirst : ∀ {kinds : List IntKind}, firstFitting kinds n = some v → ∃ k : IntKind,
      v = .int k n ∧ k.holds n = true := by
    intro kinds h
    obtain ⟨k, hk, rfl⟩ := Option.map_eq_some_iff.1 h
    exact ⟨k, rfl, by simpa using List.find?_some hk⟩
  unfold integerValue? at h
  split at h
  · cases h
  · simp only [Bool.false_eq_true, reduceIte] at h
    split at h <;> exact hfirst h

end Build

namespace Calculation

variable {s : Scope} {numbers : String → Option (IntKind × Int)} {env : Environment}

theorem mem_parts_self (c : Calculation) : c ∈ c.parts := by
  cases c <;> exact List.mem_cons_self

theorem Fails.mono {c d : Calculation} {f : Failure} (h : c.Fails numbers f)
    (hparts : c.parts ⊆ d.parts) :
    d.Fails numbers f := by
  rcases h with ⟨hcore, op, l, r, hmem, h⟩ | ⟨hcore, p, hmem, h⟩
  · exact .inl ⟨hcore, op, l, r, hparts hmem, h⟩
  · exact .inr ⟨hcore, p, hparts hmem, h⟩

/-- An element of the type of a calculation that has its exact value, or fails as the calculation
can. -/
def Settles (numbers : String → Option (IntKind × Int)) (env : Environment) (c : Calculation)
    (e : Element) : Prop :=
  ∃ k, c.kind? numbers = some k ∧ e.type = .int k ∧
    ((∃ n, c.exact numbers = some n ∧ k.holds n = true ∧ ∀ last,
      e.eval env last = pure (.int k n)) ∨
      ∃ f, c.Fails numbers f ∧ ∀ last, e.eval env last = failed f)

theorem settles_numeral {hex : Bool} {image : Text} {e : Element}
    (hint : s.options.integersAsDoubles = false)
    (h : (numeral hex image).element? s = some e) : (numeral hex image).Settles numbers env e := by
  have hkind : ((if hex then .hex else .integer : Lexical.Kind) == .real) = false := by
    cases hex <;> rfl
  have hhex : ((if hex then .hex else .integer : Lexical.Kind) == .hex) = hex := by
    cases hex <;> rfl
  simp only [element?, Build.number, hkind, hhex, hint] at h
  cases hvalue : Build.integerValue? false false (Build.readInteger hex image).1
    (Build.readInteger hex image).2 with
  | none =>
    rw [hvalue] at h
    cases h
  | some v =>
    rw [hvalue] at h
    cases h
    obtain ⟨k, rfl, hheld⟩ := Build.integerValue?_held hvalue
    refine ⟨k, ?_, rfl, .inl ⟨_, rfl, hheld, fun last => by rw [Element.eval]⟩⟩
    simp only [kind?, hvalue]

theorem settles_named {name : String} {k : IntKind} {n : Int} {e : Element}
    (hnumber : numbers name = some (k, n))
    (hheld : k.holds n = true) (hname : Build.firstName s name =
      .ok (.value (.variable name (.int k))))
    (hload : env.load name (.int k) = pure (.int k n)) (h : (named name).element? s = some e) :
    (named name).Settles numbers env e := by
  rw [element?, hname] at h
  cases h
  refine ⟨k, by rw [kind?, hnumber]; rfl, rfl,
    .inl ⟨n, by rw [exact, hnumber]; rfl, hheld, fun last => ?_⟩⟩
  rw [Element.eval, hload]

/-- Operands with their exact values, or the failure of one of them, decide about the whole. -/
theorem settles_binary {op : BasicOperator} {l r : Calculation} {a b e : Element}
    (hops : s.operators.implicit = [])
    (hchecked : s.options.checked = true) (ha : l.Settles numbers env a)
    (hb : r.Settles numbers env b)
    (h : Build.arithmetic s op.operator a b = .ok e) : (binary op l r).Settles numbers env e := by
  obtain ⟨i, hi, htype, ha⟩ := ha
  obtain ⟨j, hj, htype', hb⟩ := hb
  obtain ⟨k, x, y, hk, hx, hy, rfl⟩ := Build.arithmetic_int htype htype' h
  have hkind : (binary op l r).kind? numbers = some k := by simp [kind?, hi, hj, hk]
  refine ⟨k, hkind, rfl, ?_⟩
  rcases ha with ⟨n, hn, hheld, ha⟩ | ⟨f, hf, ha⟩
  · rcases hb with ⟨m, hm, hheld', hb⟩ | ⟨f, hf, hb⟩
    · have hheldk : k.holds n = true := (Typing.holds_of_operandKind? hk n).1 hheld
      have hheldk' : k.holds m = true := (Typing.holds_of_operandKind? hk m).2 hheld'
      have hexact : (binary op l r).exact numbers = op.exact n m := by simp [exact, hn, hm]
      have heval : ∀ last, (Element.binary (.arithmetic op.operator (.int k) s.options.checked)
        (.int k) x y).eval env last =
          settle k (op.checked k n m) := by
        intro last
        rw [Element.eval, Build.eval_implicit_of_pure hops hx htype (ha last) hheld,
          Value.returnedAs_int i hheldk]
        simp only [pure_bind]
        rw [Build.eval_implicit_of_pure hops hy htype' (hb _) hheld',
          Value.returnedAs_int j hheldk', hchecked]
        simp only [pure_bind, Binary.apply, BEq.rfl, Bool.and_self, reduceIte]
        rw [op.intArithmetic_checked hheldk hheldk']
      have hcases := op.checked_cases k n m
      rw [← hexact] at hcases
      rcases hcases with ⟨q, hq, hheldq, hchecks⟩ | ⟨hdivides, rfl, hchecks⟩ | ⟨q,
        hq, hover, hchecks⟩
      · exact .inl ⟨q, hq, hheldq, fun last => by rw [heval, hchecks]; rfl⟩
      · exact .inr ⟨_, .inl ⟨rfl, op, l, r, mem_parts_self _, hdivides, hm⟩,
          fun last => by rw [heval, hchecks]; rfl⟩
      · exact .inr ⟨_, .inr ⟨rfl, _, mem_parts_self _, k, q, hkind, hq, hover⟩,
          fun last => by rw [heval, hchecks]; rfl⟩
    · refine .inr ⟨f, hf.mono ?_, fun last => ?_⟩
      · exact List.subset_cons_of_subset _ (List.subset_append_right _ _)
      · rw [Element.eval, Build.eval_implicit_of_pure hops hx htype (ha last) hheld]
        simp only [pure_bind]
        rw [Build.eval_implicit_of_failed hy (hb _)]
        rfl
  · refine .inr ⟨f, hf.mono ?_, fun last => ?_⟩
    · exact List.subset_cons_of_subset _ (List.subset_append_left _ _)
    · rw [Element.eval, Build.eval_implicit_of_failed hx (ha last)]
      rfl

/-- The element of a calculation has the exact value of the calculation, or fails as the calculation
can. -/
theorem settles_element {store : Store} (hops : s.operators.implicit = [])
    (hchecked : s.options.checked = true) (hint : s.options.integersAsDoubles = false)
    (hload : ∀ name k n, store.number? name = some (k, n) → k.holds n = true ∧
      env.load name (.int k) = pure (.int k n))
    {c : Calculation} (hplain : c.Plain s store) {e : Element} (h : c.element? s = some e) :
    c.Settles store.number? env e := by
  induction c generalizing e with
  | numeral hex image => exact settles_numeral hint h
  | named name =>
    obtain ⟨k, n, hname, hnumber⟩ := hplain name (List.mem_singleton.2 rfl)
    exact settles_named hnumber (hload name k n hnumber).1 hname (hload name k n hnumber).2 h
  | binary op l r ihl ihr =>
    obtain ⟨a, ha, h⟩ := Option.bind_eq_some_iff.1 h
    obtain ⟨b, hb, h⟩ := Option.bind_eq_some_iff.1 h
    have hl := ihl (fun name hname => hplain name (List.mem_append_left _ hname)) ha
    have hr := ihr (fun name hname => hplain name (List.mem_append_right _ hname)) hb
    refine settles_binary hops hchecked hl hr ?_
    cases hbuilt : Build.arithmetic s op.operator a b with
    | error f =>
      rw [hbuilt] at h
      cases h
    | ok x =>
      rw [hbuilt] at h
      cases h
      rfl

end Calculation

end Formulary
