import Formulary.Element.Operation
import Formulary.Proofs.Element.Exactness
import Formulary.Proofs.Host.Honest
import Formulary.Proofs.Value.Whole

/-!
# Operators on integers

What the operators of arithmetic make of two integers of a type, in terms of the result over all
integers. With tests for overflow they give this result or fail; without, they give the number of
the type that equals it modulo the width. Division is cut off toward zero, and only the least number
over minus one leaves the type.
-/

namespace Formulary

open IntKind (holds_iff wrap_of_holds low_of_signed low_of_unsigned holds_tdiv holds_tmod)

/-- An operation whose result over all integers is `n`, with and without tests for overflow. -/
structure Computes (k : IntKind) (op : Operator) (n : Int) (run : Bool → Eval Value) : Prop where
  held : k.holds n = true → run true = pure (.int k n)
  overflow : k.holds n = false → run true = failed (overflowOf op)
  wrapped : ∃ m, run false = pure (.int k m) ∧ k.holds m = true ∧ m ≡ n [ZMOD 2 ^ k.bits]

/-- A quotient and a remainder of two numbers, with and without tests for overflow. A remainder that
is less than the divisor and has the sign of the dividend belongs to the quotient cut off toward
zero. -/
inductive Divided (k : IntKind) (a b : Int) (quotient remainder : Bool → Eval Value) : Prop
  | zero (hb : b = 0) (hquotient : ∀ checked, quotient checked = failed (.fault .divideByZero))
      (hremainder : ∀ checked, remainder checked = failed (.fault .divideByZero))
  | exact (q r : Int) (hb : b ≠ 0) (hne : ¬(a = k.low ∧ b = -1))
      (hquotient : ∀ checked, quotient checked = pure (.int k q))
      (hremainder : ∀ checked, remainder checked = pure (.int k r))
      (hsum : a = q * b + r) (hless : r.natAbs < b.natAbs) (hsign : 0 ≤ a * r)
  | least (q : Int) (ha : a = k.low) (hb : b = -1)
      (hchecked : quotient true = failed (overflowOf .divide))
      (hquotient : quotient false = pure (.int k q))
      (hremainder : ∀ checked, remainder checked = pure (.int k 0))
      (hheld : k.holds q = true) (hsum : q * b + 0 ≡ a [ZMOD 2 ^ k.bits])

/-- The negation of an integer of a type. -/
def negation (host : Host) (k : IntKind) (a : Int) (checked : Bool) : Eval Value :=
  (Unary.negate (.int k) checked).apply host (.int k a)

variable {k : IntKind} {a b n : Int}

/-- The negation of a signed integer leaves the type only for the least number. -/
theorem holds_neg_iff (hk : k.unsigned = false) (ha : k.holds a = true) : k.holds (-a) = true ↔
    ¬k.isLeast a = true := by
  have hsign := low_of_signed hk
  rw [isLeast_iff hk ha]
  rw [holds_iff] at *
  omega

theorem computes_settled {op : Operator} {run : Bool → Except Failure Int}
    (hchecked : run true = if k.holds n then .ok n else .error (overflowOf op))
    (hwrapped : run false = .ok (k.wrap n)) :
    Computes k op n fun checked => settle k (run checked) where
  held hn := by rw [hchecked, if_pos hn]; rfl
  overflow hn := by rw [hchecked, hn]; rfl
  wrapped := ⟨k.wrap n, by rw [hwrapped]; rfl, k.holds_wrap n, k.wrap_modEq n⟩

theorem negation_eq (host : Host) (k : IntKind) (a : Int) :
    negation host k a = fun checked => settle k (intNegation k checked a) := by
  funext checked
  simp [negation, Unary.apply]

theorem negation_computes (host : Host) (hk : k.unsigned = false) (ha : k.holds a = true) :
    Computes k .negate (-a) (negation host k a) := by
  rw [negation_eq]
  refine computes_settled ?_ rfl
  unfold intNegation
  refine tested_eq ?_ wrap_of_holds
  rw [Bool.true_and, holds_neg_iff hk ha, not_not]

namespace BasicOperator

/-- The operator applied to two integers of a type. -/
def run (op : BasicOperator) (host : Host) (k : IntKind) (a b : Int)
    (checked : Bool) : Eval Value :=
  (Binary.arithmetic op.operator (.int k) checked).apply host (.int k a) (.int k b)

theorem run_eq (op : BasicOperator) (host : Host) (k : IntKind) (a b : Int) :
    op.run host k a b = fun checked => settle k (intArithmetic k op.operator checked a b) := by
  funext checked
  simp [run, Binary.apply]

/-- Without tests, an exact result wraps. Quotients of unsigned numbers and remainders are held
already. -/
theorem intArithmetic_wraps {op : BasicOperator} (ha : k.holds a = true) (hb : k.holds b = true)
    (h : op.exact a b = some n) : intArithmetic k op.operator false a b = .ok (k.wrap n) := by
  unfold intArithmetic
  cases hk : k.unsigned with
  | true =>
    rw [if_pos rfl]
    cases op with
    | add | subtract | multiply =>
      cases h
      rfl
    | divide =>
      obtain ⟨hne, rfl⟩ : b ≠ 0 ∧ a.tdiv b = n := by simpa [exact] using h
      have hheld : k.holds (a.tdiv b) = true := by
        refine holds_tdiv ha ?_ hb
        rintro rfl
        rw [holds_iff, low_of_unsigned hk] at hb
        omega
      rw [wrap_of_holds hheld]
      simp [operator, unsignedArithmetic, hne]
    | modulo =>
      obtain ⟨hne, rfl⟩ : b ≠ 0 ∧ a.tmod b = n := by simpa [exact] using h
      rw [wrap_of_holds (holds_tmod ha)]
      simp [operator, unsignedArithmetic, hne]
  | false =>
    rw [if_neg (by decide)]
    cases op with
    | add | subtract | multiply =>
      cases h
      rfl
    | divide =>
      obtain ⟨hne, rfl⟩ : b ≠ 0 ∧ a.tdiv b = n := by simpa [exact] using h
      simp [operator, signedArithmetic, hne]
    | modulo =>
      obtain ⟨hne, rfl⟩ : b ≠ 0 ∧ a.tmod b = n := by simpa [exact] using h
      rw [wrap_of_holds (holds_tmod ha)]
      simp [operator, signedArithmetic, hne]

theorem run_computes (op : BasicOperator) (host : Host) (ha : k.holds a = true)
    (hb : k.holds b = true)
    (h : op.exact a b = some n) : Computes k op.operator n (op.run host k a b) := by
  rw [run_eq]
  refine computes_settled ?_ (intArithmetic_wraps ha hb h)
  rw [intArithmetic_checked op ha hb, checked, h]

/-- The tests do not matter for a divisor that is zero. -/
theorem run_zero {op : BasicOperator} (host : Host) (k : IntKind) (a : Int)
    (hop : op.divides = true) (checked : Bool) :
    op.run host k a 0 checked = failed (.fault .divideByZero) := by
  rw [run_eq]
  cases op with
  | divide | modulo =>
    simp [intArithmetic, unsignedArithmetic, signedArithmetic, operator]
    rfl
  | _ => cases hop

end BasicOperator

/-- A result that the type holds is given with and without tests. -/
theorem Computes.eq_pure {op : Operator} {run : Bool → Eval Value} (h : Computes k op n run)
    (hn : k.holds n = true)
    (checked : Bool) : run checked = pure (.int k n) := by
  cases checked with
  | true => exact h.held hn
  | false =>
    obtain ⟨m, hm, hheld, hmod⟩ := h.wrapped
    rw [hm, IntKind.eq_of_modEq hmod hheld hn]

/-- A remainder has the sign of the dividend. -/
theorem mul_tmod_nonneg (a b : Int) : 0 ≤ a * a.tmod b := by
  rcases le_total 0 a with h | h
  · exact mul_nonneg h (Int.tmod_nonneg b h)
  · have hrest := Int.tmod_nonneg b (neg_nonneg.2 h)
    rw [Int.neg_tmod] at hrest
    exact mul_nonneg_of_nonpos_of_nonpos h (neg_nonneg.1 hrest)

/-- The least number over minus one is the least number again, and nothing remains. -/
theorem divided_least (host : Host) (hk : k.unsigned = false) (hb : k.holds (-1) = true) :
    Divided k k.low (-1) (BasicOperator.divide.run host k k.low (-1))
      (BasicOperator.modulo.run host k k.low (-1)) := by
  have hlow : k.holds k.low = true := holds_iff.2 ⟨le_refl _, k.low_nonpos.trans k.high_pos.le⟩
  have hdivide := BasicOperator.divide.run_computes host hlow hb (n := -k.low)
    (by simp [BasicOperator.exact])
  have hmodulo := BasicOperator.modulo.run_computes host hlow hb (n := 0)
    (by simp [BasicOperator.exact])
  obtain ⟨q, hq, hheld, hmod⟩ := hdivide.wrapped
  refine .least q rfl rfl (hdivide.overflow ?_) hq (hmodulo.eq_pure k.holds_zero) hheld ?_
  · have hsign := low_of_signed hk
    rw [Bool.eq_false_iff, ne_eq, holds_iff]
    omega
  · simpa using hmod.neg

/-- Division of two numbers of a type, toward zero. -/
theorem run_divided (host : Host) (ha : k.holds a = true) (hb : k.holds b = true) :
    Divided k a b (BasicOperator.divide.run host k a b) (BasicOperator.modulo.run host k a b) := by
  by_cases hzero : b = 0
  · subst hzero
    exact .zero rfl (BasicOperator.run_zero host k a rfl) (BasicOperator.run_zero host k a rfl)
  by_cases hleast : a = k.low ∧ b = -1
  · obtain ⟨rfl, rfl⟩ := hleast
    have hk : k.unsigned = false := by
      rw [Bool.eq_false_iff]
      intro hu
      rw [holds_iff, low_of_unsigned hu] at hb
      omega
    exact divided_least host hk hb
  · have hdivide := BasicOperator.divide.run_computes host ha hb (n := a.tdiv b) (if_neg hzero)
    have hmodulo := BasicOperator.modulo.run_computes host ha hb (n := a.tmod b) (if_neg hzero)
    have hheld : k.holds (a.tdiv b) = true := holds_tdiv ha (fun hb' ha' => hleast ⟨ha', hb'⟩) hb
    refine .exact (a.tdiv b) (a.tmod b) hzero hleast (hdivide.eq_pure hheld)
      (hmodulo.eq_pure (holds_tmod ha))
      (Int.tdiv_mul_add_tmod a b).symm ?_ (mul_tmod_nonneg a b)
    rw [Int.natAbs_tmod]
    exact Nat.mod_lt _ (Int.natAbs_pos.2 hzero)

/-- The operators of arithmetic on integers of a type give the exact result or an overflow with
tests, and the result modulo the width without. A quotient and a remainder are cut off toward zero;
they fail for a divisor that is zero. -/
theorem operators_exact (host : Host) (k : IntKind) (a b : Int) (ha : k.holds a = true)
    (hb : k.holds b = true) :
    Computes k .add (a + b) (BasicOperator.add.run host k a b) ∧
    Computes k .subtract (a - b) (BasicOperator.subtract.run host k a b) ∧
    Computes k .multiply (a * b) (BasicOperator.multiply.run host k a b) ∧
    (k.unsigned = false → Computes k .negate (-a) (negation host k a)) ∧
    Divided k a b (BasicOperator.divide.run host k a b) (BasicOperator.modulo.run host k a b) :=
  ⟨BasicOperator.add.run_computes host ha hb rfl,
    BasicOperator.subtract.run_computes host ha hb rfl,
    BasicOperator.multiply.run_computes host ha hb rfl, fun hk =>
      negation_computes host hk ha, run_divided host ha hb⟩

/-- The least number over minus one: multiplication and division overflow with tests, and nothing
remains. -/
theorem operators_exact_least :
    BasicOperator.multiply.run .bare .long IntKind.long.low (-1) true =
      failed (overflowOf .multiply) ∧
    Divided .long IntKind.long.low (-1) (BasicOperator.divide.run .bare .long IntKind.long.low (-1))
      (BasicOperator.modulo.run .bare .long IntKind.long.low (-1)) := by
  obtain ⟨-, -, hmultiply, -, hdivided⟩ := operators_exact .bare .long IntKind.long.low (-1)
    (by decide) (by decide)
  exact ⟨hmultiply.overflow (by decide), hdivided⟩

end Formulary
