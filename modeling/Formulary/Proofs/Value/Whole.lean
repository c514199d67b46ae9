import Mathlib.Data.Int.ModEq
import Mathlib.Data.Rat.Floor
import Mathlib.Tactic.Linarith
import Mathlib.Tactic.NormNum
import Mathlib.Tactic.Ring
import Formulary.Value.Number

/-!
# Whole numbers as values

The integer types and the characters hold whole numbers. Wrapping leaves a number as it is where a
type of integers holds it, and makes of any other the one held number that differs from it by whole
rounds.

Whatever type a number comes from, a conversion to a type of whole numbers gives the number that it
equals modulo the width; a decimal is cut off first, toward zero. Conversions pass through integers
of 64 bits, which is as wide as any of the types, so nothing is lost on the way.
-/

namespace Formulary

namespace IntKind

section Widths

variable {k : IntKind} {a b n : Int}

def count (k : IntKind) : Int := k.high - k.low + 1

theorem holds_iff : k.holds n = true ↔ k.low ≤ n ∧ n ≤ k.high := by
  simp [holds]

theorem wrap_def (k : IntKind) (n : Int) :
    k.wrap n = if k.unsigned then n % (2 ^ k.bits : Nat) else n.bmod (2 ^ k.bits) := rfl

theorem low_of_unsigned (h : k.unsigned = true) : k.low = 0 := if_pos h

theorem low_of_signed (h : k.unsigned = false) : k.low = -k.high - 1 := by
  cases k <;> first | rfl | cases h

theorem low_nonpos (k : IntKind) : k.low ≤ 0 := by
  cases k <;> decide

theorem high_pos (k : IntKind) : 0 < k.high := by
  cases k <;> decide

@[simp] theorem holds_zero (k : IntKind) : k.holds 0 = true :=
  holds_iff.2 ⟨k.low_nonpos, k.high_pos.le⟩

theorem holds_wrap (k : IntKind) (n : Int) : k.holds (k.wrap n) = true := by
  rw [holds_iff, wrap_def]
  cases k <;> simp [low, high, unsigned, bits, Int.bmod_def] <;> omega

/-- Wrapping changes a number by whole rounds. -/
theorem count_dvd_wrap_sub (k : IntKind) (n : Int) : k.count ∣ k.wrap n - n := by
  rw [wrap_def, count]
  cases k <;> simp [low, high, unsigned, bits, Int.bmod_def] <;> omega

/-- Two held numbers that differ by whole rounds are the same. -/
theorem eq_of_count_dvd_sub (ha : k.holds a = true) (hb : k.holds b = true)
    (h : k.count ∣ a - b) : a = b := by
  rw [holds_iff] at ha hb
  have hround : |a - b| < k.count := by
    rw [abs_lt, count]
    omega
  exact sub_eq_zero.1 (Int.eq_zero_of_abs_lt_dvd h hround)

/-- A number wraps to the held one that differs from it by whole rounds. -/
theorem wrap_eq (ha : k.holds a = true) (h : k.count ∣ n - a) : k.wrap n = a := by
  refine eq_of_count_dvd_sub (k.holds_wrap n) ha ?_
  rw [← sub_add_sub_cancel (k.wrap n) n a]
  exact Int.dvd_add (k.count_dvd_wrap_sub n) h

theorem wrap_of_holds (h : k.holds n = true) : k.wrap n = n :=
  wrap_eq h ⟨0, by rw [sub_self, mul_zero]⟩

/-- A number at most one round too small or too large wraps to the one a round away. -/
theorem wrap_cases (hlow : k.low - k.count ≤ n) (hhigh : n ≤ k.high + k.count) :
    (k.holds n = true ∧ k.wrap n = n) ∨ (n < k.low ∧ k.wrap n = n + k.count) ∨
      (k.high < n ∧ k.wrap n = n - k.count) := by
  have hcount : k.count = k.high - k.low + 1 := rfl
  rcases lt_or_ge n k.low with hless | hle
  · exact .inr (.inl ⟨hless, wrap_eq (holds_iff.2 (by omega)) ⟨-1, by omega⟩⟩)
  rcases lt_or_ge k.high n with hmore | hge
  · exact .inr (.inr ⟨hmore, wrap_eq (holds_iff.2 (by omega)) ⟨1, by omega⟩⟩)
  · have hheld : k.holds n = true := holds_iff.2 ⟨hle, hge⟩
    exact .inl ⟨hheld, wrap_of_holds hheld⟩

/-- The quotient of two numbers is held, except the least number over minus one. -/
theorem holds_tdiv (ha : k.holds a = true) (hne : b = -1 → a ≠ k.low) (hb : k.holds b = true) :
    k.holds (a.tdiv b) = true := by
  have hlow := k.low_nonpos
  have hhigh := k.high_pos
  rw [holds_iff] at ha hb ⊢
  have habs := Int.natAbs_tdiv_le_natAbs a b
  rcases lt_trichotomy b 0 with hneg | rfl | hpos
  · have hsigned : k.unsigned = false := by
      rw [Bool.eq_false_iff]
      intro hu
      have := low_of_unsigned hu
      omega
    have hopposite := low_of_signed hsigned
    rcases eq_or_ne b (-1) with rfl | hne'
    · have := hne rfl
      rw [Int.tdiv_neg, Int.tdiv_one]
      omega
    · have hhalf : (a.tdiv b).natAbs ≤ a.natAbs / 2 := by
        rw [Int.natAbs_tdiv]
        exact Nat.div_le_div_left (by omega) (by decide)
      omega
  · rw [Int.tdiv_zero]
    omega
  · rcases le_total 0 a with h | h
    · have := Int.tdiv_nonneg h hpos.le
      omega
    · have := Int.tdiv_nonneg (neg_nonneg.2 h) hpos.le
      rw [Int.neg_tdiv] at this
      omega

theorem holds_tmod (ha : k.holds a = true) : k.holds (a.tmod b) = true := by
  have hlow := k.low_nonpos
  have hhigh := k.high_pos
  rw [holds_iff] at ha ⊢
  have habs : (a.tmod b).natAbs ≤ a.natAbs := by
    rw [Int.natAbs_tmod]
    exact Nat.mod_le _ _
  rcases le_total 0 a with h | h
  · have := Int.tmod_nonneg b h
    omega
  · have := Int.tmod_nonneg b (neg_nonneg.2 h)
    rw [Int.neg_tmod] at this
    omega

/-- If dividing a wrapped product by one factor gives back the other, then nothing was lost: the
remainder is less than a round. -/
theorem holds_mul_of_tdiv (ha : k.holds a = true) (hne : a ≠ 0) (h : (k.wrap (a * b)).tdiv a = b) :
    k.holds (a * b) = true := by
  have hdvd := k.count_dvd_wrap_sub (a * b)
  have hheld := k.holds_wrap (a * b)
  generalize k.wrap (a * b) = r at *
  have hsum := Int.mul_tdiv_add_tmod r a
  rw [h] at hsum
  have hrest : r.tmod a = r - a * b := by omega
  have habs : (r.tmod a).natAbs < a.natAbs := by
    rw [Int.natAbs_tmod]
    exact Nat.mod_lt _ (by omega)
  have hzero : r.tmod a = 0 := by
    have hlow := k.low_nonpos
    have hhigh := k.high_pos
    rw [holds_iff] at ha
    rw [← hrest] at hdvd
    refine Int.eq_zero_of_abs_lt_dvd hdvd ?_
    rw [Int.abs_eq_natAbs, count]
    omega
  have hr : r = a * b := by omega
  exact hr ▸ hheld

end Widths

theorem count_eq (k : IntKind) : k.count = 2 ^ k.bits := by
  cases k <;> decide

/-- Wrapping keeps a number modulo the width. -/
theorem wrap_modEq (k : IntKind) (n : Int) : k.wrap n ≡ n [ZMOD 2 ^ k.bits] := by
  rw [← count_eq]
  exact (Int.modEq_iff_dvd.2 (k.count_dvd_wrap_sub n)).symm

/-- A type holds one number of each residue. -/
theorem eq_of_modEq {k : IntKind} {m n : Int} (h : m ≡ n [ZMOD 2 ^ k.bits]) (hm : k.holds m = true)
    (hn : k.holds n = true) : m = n := by
  rw [← count_eq] at h
  exact eq_of_count_dvd_sub hm hn (Int.modEq_iff_dvd.1 h.symm)

theorem wrap_eq_self (k : IntKind) (n : Int) : k.wrap n = n ↔ k.holds n = true :=
  ⟨fun h => h ▸ k.holds_wrap n, wrap_of_holds⟩

/-- No type is wider than 64 bits, so that a number may be wrapped to them first. -/
theorem wrap_long_wrap (k : IntKind) (n : Int) : k.wrap (long.wrap n) = k.wrap n := by
  have hdvd : k.count ∣ long.count := by cases k <;> decide
  refine wrap_eq (k.holds_wrap n) ?_
  rw [← sub_sub_sub_cancel_right _ _ n]
  exact Int.dvd_sub (hdvd.trans (long.count_dvd_wrap_sub n)) (k.count_dvd_wrap_sub n)

/-- A number may be wrapped before it is negated. -/
theorem wrap_neg_wrap (k : IntKind) (n : Int) : k.wrap (-(k.wrap n)) = k.wrap (-n) := by
  refine wrap_eq (k.holds_wrap (-n)) ?_
  have hdvd := Int.dvd_add (k.count_dvd_wrap_sub n) (k.count_dvd_wrap_sub (-n))
  rwa [← Int.dvd_neg, show -(-(k.wrap n) - k.wrap (-n)) =
    k.wrap n - n + (k.wrap (-n) - -n) by omega]

end IntKind

/-- A type of whole numbers: an integer type, or the characters with their codes. -/
inductive Whole where
  | int (kind : IntKind)
  | char
  deriving DecidableEq, Repr

namespace Whole

def type : Whole → Ty
  | int k => .int k
  | char => .char

/-- The integers that values of the type are stored as; a character takes 32 bits. -/
def kind : Whole → IntKind
  | int k => k
  | char => .int

def value : Whole → Int → Value
  | int k, n => .int k n
  | char, n => .char n

end Whole

/-- A rational number cut off toward zero. -/
def towardZero (q : ℚ) : ℤ := if 0 ≤ q then ⌊q⌋ else ⌈q⌉

@[simp] theorem towardZero_intCast (n : ℤ) : towardZero n = n := by
  simp [towardZero]

/-- Division of integers is cut off toward zero. -/
theorem towardZero_div (n : ℤ) (d : ℕ) : towardZero ((n : ℚ) / d) = n.tdiv d := by
  have hd : (0 : ℚ) ≤ d := Nat.cast_nonneg d
  rcases le_total 0 n with hn | hn
  · have hq : (0 : ℚ) ≤ n / d := div_nonneg (by exact_mod_cast hn) hd
    rw [towardZero, if_pos hq, Rat.floor_intCast_div_natCast, Int.tdiv_eq_ediv_of_nonneg hn]
  · have hneg : towardZero ((n : ℚ) / d) = ⌈(n : ℚ) / d⌉ := by
      unfold towardZero
      split
      · rename_i hq
        have hzero : (n : ℚ) / d = 0 := le_antisymm
          (div_nonpos_of_nonpos_of_nonneg (by exact_mod_cast hn) hd) hq
        rw [hzero, Int.floor_zero, Int.ceil_zero]
      · rfl
    have hflip : (n : ℚ) / d = -(((-n : ℤ) : ℚ) / d) := by
      push_cast
      ring
    rw [hneg, hflip, Int.ceil_neg, Rat.floor_intCast_div_natCast,
      ← Int.tdiv_eq_ediv_of_nonneg (Int.neg_nonneg.2 hn), Int.neg_tdiv, Int.neg_neg]

/-- The number that a decimal stands for. -/
def Decimal.number (d : Decimal) : ℚ := d.coefficient * (10 : ℚ) ^ d.exponent

/-- The whole part of a decimal is its number cut off toward zero. -/
theorem Decimal.wholePart_eq (d : Decimal) : d.wholePart = towardZero d.number := by
  obtain ⟨c, e⟩ := d
  unfold wholePart rescale number
  dsimp only
  split
  · rename_i he
    obtain ⟨k, rfl⟩ := Int.exists_eq_neg_ofNat he
    have hpower : (c : ℚ) * 10 ^ (-(k : ℤ)) = c / ((10 ^ k : ℕ) : ℚ) := by
      rw [zpow_neg, zpow_natCast, div_eq_mul_inv]
      push_cast
      rfl
    have hplaces : (0 - -(k : ℤ)).toNat = k := by omega
    rw [hpower, towardZero_div, hplaces]
    rfl
  · rename_i he
    obtain ⟨k, rfl⟩ := Int.eq_ofNat_of_zero_le (Int.le_of_lt (Int.not_le.1 he))
    have hpower : (c : ℚ) * 10 ^ (k : ℤ) = ((c * (10 ^ k : ℕ) : ℤ) : ℚ) := by
      rw [zpow_natCast]
      push_cast
      rfl
    have hplaces : ((k : ℤ) - 0).toNat = k := by omega
    rw [hpower, towardZero_intCast, hplaces]
    rfl

namespace Value

/-- The number that an integer, a character or a decimal stands for. -/
def number? : Value → Option ℚ
  | .int _ n | .char n => some n
  | .decimal d _ => some d.number
  | _ => none

/-- The integer part of a number is the number cut off toward zero. -/
theorem integerPart?_of_number? {v : Value} {q : ℚ} (h : v.number? = some q) :
    v.integerPart? = some (towardZero q) := by
  cases v with
  | int | char =>
    cases h
    rw [towardZero_intCast]
    rfl
  | decimal d mark =>
    cases h
    exact congrArg some d.wholePart_eq
  | _ => cases h

/-- A number becomes the whole number of a type that it equals modulo the width, once it is cut
off. -/
theorem toNumeric_whole {v : Value} {q : ℚ} (h : v.number? = some q) (target : Whole) :
    v.toNumeric target.type = target.value (target.kind.wrap (towardZero q)) := by
  have hlong : v.toLong = IntKind.long.wrap (towardZero q) := by
    cases v with
    | int | char =>
      cases h
      rw [towardZero_intCast]
      rfl
    | decimal d mark =>
      cases h
      exact congrArg IntKind.long.wrap d.wholePart_eq
    | _ => cases h
  have hulong : v.toULong = IntKind.ulong.wrap (towardZero q) := by
    cases v with
    | int | char =>
      have hbits := congrArg IntKind.ulong.wrap hlong
      rwa [IntKind.wrap_long_wrap] at hbits
    | decimal d mark =>
      cases h
      exact congrArg IntKind.ulong.wrap d.wholePart_eq
    | _ => cases h
  cases target with
  | char =>
    show Value.char (IntKind.int.wrap v.toLong) = _
    rw [hlong, IntKind.wrap_long_wrap]
    rfl
  | int k =>
    show (if k == .ulong || k == .umachine then .int k v.toULong else .int k (k.wrap v.toLong)) =
      Value.int k _
    split
    · rename_i hk
      simp only [Bool.or_eq_true, beq_iff_eq] at hk
      rw [hulong]
      rcases hk with rfl | rfl <;> rfl
    · rw [hlong, IntKind.wrap_long_wrap]
      rfl

end Value

end Formulary
