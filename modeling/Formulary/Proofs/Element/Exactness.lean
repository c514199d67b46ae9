import Formulary.Element.Arithmetic
import Formulary.Proofs.Value.Whole

/-!
# Checked arithmetic of integers

With tests for overflow, an operator of integers gives the exact result where the type holds it. It
fails for a divisor that is zero and for a result that is not held, and for nothing else.
-/

namespace Formulary

inductive BasicOperator where
  | add
  | subtract
  | multiply
  | divide
  | modulo
  deriving DecidableEq, Repr

namespace BasicOperator

def operator : BasicOperator → Operator
  | add => .add
  | subtract => .subtract
  | multiply => .multiply
  | divide => .divide
  | modulo => .modulo

def divides : BasicOperator → Bool
  | divide | modulo => true
  | _ => false

/-- The result over all integers, truncated toward zero; nothing can be divided by zero. -/
def exact (op : BasicOperator) (a b : Int) : Option Int :=
  match op with
  | add => some (a + b)
  | subtract => some (a - b)
  | multiply => some (a * b)
  | divide => if b = 0 then none else some (a.tdiv b)
  | modulo => if b = 0 then none else some (a.tmod b)

/-- An exact result with the tests of a type. -/
def checked (op : BasicOperator) (k : IntKind) (a b : Int) : Except Failure Int :=
  match op.exact a b with
  | none => .error (.fault .divideByZero)
  | some n => if k.holds n then .ok n else .error (overflowOf op.operator)

end BasicOperator

open IntKind (holds_iff count wrap_of_holds wrap_cases low_of_signed low_of_unsigned
  holds_tdiv holds_tmod
  holds_mul_of_tdiv)

variable {k : IntKind} {a b : Int}

/-- The negation of the least number of a signed type wraps to this number. -/
theorem wrap_neg_low (hk : k.unsigned = false) : k.wrap (-k.low) = k.low := by
  have hsign := low_of_signed hk
  have hhigh := k.high_pos
  have hwrap := wrap_cases (k := k) (n := -k.low) (by rw [count]; omega) (by rw [count]; omega)
  rw [holds_iff, count] at hwrap
  omega

theorem isLeast_iff (hk : k.unsigned = false) (ha : k.holds a = true) :
    k.isLeast a = true ↔ a = k.low := by
  have hsign := low_of_signed hk
  have hhigh := k.high_pos
  rw [holds_iff] at ha
  simp only [IntKind.isLeast, Bool.and_eq_true, decide_eq_true_eq, beq_iff_eq]
  have hwrap := wrap_cases (k := k) (n := -a) (by rw [count]; omega) (by rw [count]; omega)
  rw [holds_iff, count] at hwrap
  omega

/-- A test for overflow that tells exactly whether a result is held. -/
theorem tested_eq {test : Bool} {n r : Int} {f : Failure} (htest : test = true ↔ ¬k.holds n = true)
    (hr : k.holds n = true → r = n) :
    (if test then .error f else .ok r : Except Failure Int) = if k.holds n then .ok n
    else .error f := by
  by_cases h : k.holds n = true
  · rw [if_pos h, if_neg (fun ht => htest.1 ht h), hr h]
  · rw [if_neg h, if_pos (htest.2 h)]

namespace BasicOperator

theorem signed_add (hk : k.unsigned = false) (ha : k.holds a = true) (hb : k.holds b = true) :
    signedArithmetic k .add true a b = add.checked k a b := by
  have hsign := low_of_signed hk
  rw [holds_iff] at ha hb
  have hwrap := wrap_cases (k := k) (n := a + b) (by rw [count]; omega) (by rw [count]; omega)
  refine tested_eq ?_ wrap_of_holds
  rw [holds_iff, count] at *
  simp
  omega

theorem signed_subtract (hk : k.unsigned = false) (ha : k.holds a = true) (hb : k.holds b = true) :
    signedArithmetic k .subtract true a b = subtract.checked k a b := by
  have hsign := low_of_signed hk
  rw [holds_iff] at ha hb
  have hwrap := wrap_cases (k := k) (n := a - b) (by rw [count]; omega) (by rw [count]; omega)
  refine tested_eq ?_ wrap_of_holds
  rw [holds_iff, count] at *
  simp
  omega

/-- Dividing the wrapped product gives back the other factor only if nothing was lost, apart from
the least number times minus one. -/
theorem signed_multiply (hk : k.unsigned = false) (ha : k.holds a = true) (hb : k.holds b = true) :
    signedArithmetic k .multiply true a b = multiply.checked k a b := by
  refine tested_eq (n := a * b) ?_ wrap_of_holds
  simp only [Bool.true_and, Bool.and_eq_true, Bool.or_eq_true, bne_iff_ne, beq_iff_eq,
    isLeast_iff hk hb]
  constructor
  · rintro ⟨hne, h | ⟨rfl, rfl⟩⟩ hheld
    · rw [wrap_of_holds hheld, Int.mul_tdiv_cancel_left b hne, wrap_of_holds hb] at h
      exact h rfl
    · have hsign := low_of_signed hk
      rw [holds_iff] at hheld
      omega
  · intro hover
    by_contra hpass
    have hne : a ≠ 0 := by
      rintro rfl
      exact hover (by simp)
    obtain ⟨hback, hleast⟩ : k.wrap ((k.wrap (a * b)).tdiv a) = b ∧
      ¬(a = -1 ∧ b = k.low) := by tauto
    -- the only quotient that is not held would wrap to the least number, and this would be the
    -- factor
    have hquotient : a = -1 → k.wrap (a * b) ≠ k.low := by
      rintro rfl hlow
      rw [hlow, Int.tdiv_neg, Int.tdiv_one, wrap_neg_low hk] at hback
      exact hleast ⟨rfl, hback.symm⟩
    rw [wrap_of_holds (holds_tdiv (k.holds_wrap (a * b)) hquotient ha)] at hback
    exact hover (holds_mul_of_tdiv ha hne hback)

theorem signed_divide (hk : k.unsigned = false) (ha : k.holds a = true) (hb : k.holds b = true) :
    signedArithmetic k .divide true a b = divide.checked k a b := by
  simp only [signedArithmetic, checked, exact, beq_iff_eq]
  split
  · rfl
  · refine tested_eq (n := a.tdiv b) ?_ wrap_of_holds
    simp only [Bool.true_and, Bool.and_eq_true, beq_iff_eq, isLeast_iff hk ha]
    constructor
    · rintro ⟨rfl, rfl⟩ hheld
      have hsign := low_of_signed hk
      rw [Int.tdiv_neg, Int.tdiv_one, holds_iff] at hheld
      omega
    · intro hover
      by_contra hpass
      exact hover (holds_tdiv ha (fun hb hlow => hpass ⟨hb, hlow⟩) hb)

theorem signed_modulo (ha : k.holds a = true) :
    signedArithmetic k .modulo true a b = modulo.checked k a b := by
  simp only [signedArithmetic, checked, exact, beq_iff_eq]
  split
  · rfl
  · exact (if_pos (holds_tmod ha)).symm

theorem unsigned_add (hk : k.unsigned = true) (ha : k.holds a = true) (hb : k.holds b = true) :
    unsignedArithmetic k .add true a b = add.checked k a b := by
  have hsign := low_of_unsigned hk
  rw [holds_iff] at ha hb
  have hwrap := wrap_cases (k := k) (n := a + b) (by rw [count]; omega) (by rw [count]; omega)
  refine tested_eq ?_ wrap_of_holds
  rw [holds_iff, count] at *
  simp
  omega

theorem unsigned_subtract (hk : k.unsigned = true) (ha : k.holds a = true) (hb : k.holds b = true) :
    unsignedArithmetic k .subtract true a b = subtract.checked k a b := by
  have hsign := low_of_unsigned hk
  rw [holds_iff] at ha hb
  refine tested_eq ?_ wrap_of_holds
  rw [holds_iff]
  simp
  omega

theorem unsigned_multiply (ha : k.holds a = true) :
    unsignedArithmetic k .multiply true a b = multiply.checked k a b := by
  refine tested_eq (n := a * b) ?_ wrap_of_holds
  simp only [Bool.true_and, Bool.and_eq_true, bne_iff_ne]
  constructor
  · rintro ⟨hne, h⟩ hheld
    rw [wrap_of_holds hheld, Int.mul_tdiv_cancel_left b hne] at h
    exact h rfl
  · intro hover
    by_contra hpass
    have hne : a ≠ 0 := by
      rintro rfl
      exact hover (by simp)
    have hback : (k.wrap (a * b)).tdiv a = b := by tauto
    exact hover (holds_mul_of_tdiv ha hne hback)

theorem unsigned_divide (hk : k.unsigned = true) (ha : k.holds a = true) (hb : k.holds b = true) :
    unsignedArithmetic k .divide true a b = divide.checked k a b := by
  simp only [unsignedArithmetic, checked, exact, beq_iff_eq]
  split
  · rfl
  · refine (if_pos (holds_tdiv ha ?_ hb)).symm
    rintro rfl
    rw [holds_iff, low_of_unsigned hk] at hb
    omega

theorem unsigned_modulo (ha : k.holds a = true) :
    unsignedArithmetic k .modulo true a b = modulo.checked k a b := by
  simp only [unsignedArithmetic, checked, exact, beq_iff_eq]
  split
  · rfl
  · exact (if_pos (holds_tmod ha)).symm

/-- Checked arithmetic on numbers of a type is exact arithmetic with a test whether the type holds
the result. -/
theorem intArithmetic_checked (op : BasicOperator) (ha : k.holds a = true) (hb : k.holds b = true) :
    intArithmetic k op.operator true a b = op.checked k a b := by
  unfold intArithmetic
  cases hk : k.unsigned with
  | true =>
    rw [if_pos rfl]
    cases op with
    | add => exact unsigned_add hk ha hb
    | subtract => exact unsigned_subtract hk ha hb
    | multiply => exact unsigned_multiply ha
    | divide => exact unsigned_divide hk ha hb
    | modulo => exact unsigned_modulo ha
  | false =>
    rw [if_neg (by decide)]
    cases op with
    | add => exact signed_add hk ha hb
    | subtract => exact signed_subtract hk ha hb
    | multiply => exact signed_multiply hk ha hb
    | divide => exact signed_divide hk ha hb
    | modulo => exact signed_modulo ha

/-- What the tests of a type can find: nothing, a divisor that is zero, or a result that is not
held. -/
theorem checked_cases (op : BasicOperator) (k : IntKind) (a b : Int) :
    (∃ n, op.exact a b = some n ∧ k.holds n = true ∧ op.checked k a b = .ok n) ∨
    (op.divides = true ∧ b = 0 ∧ op.checked k a b = .error (.fault .divideByZero)) ∨
    ∃ n, op.exact a b = some n ∧ k.holds n = false ∧
      op.checked k a b = .error (overflowOf op.operator) := by
  unfold checked
  cases h : op.exact a b with
  | none =>
    refine .inr (.inl ⟨?_, ?_, rfl⟩)
    · cases op <;> first | rfl | cases h
    · cases op with
      | divide | modulo => simpa [exact] using h
      | _ => cases h
  | some n =>
    cases hn : k.holds n with
    | true => exact .inl ⟨n, rfl, hn, by simp [hn]⟩
    | false => exact .inr (.inr ⟨n, rfl, hn, by simp [hn]⟩)

end BasicOperator

end Formulary
