import Formulary.Proofs.Host.Honest
import Formulary.Proofs.Value.Whole

/-!
# Conversions between whole numbers

Between types of whole numbers, a conversion without a cast gives the number of the target that
equals the one converted modulo the width. Most types that widen to another hold no other numbers
than it does, so that every number stays the same. The table has six exceptions: `sbyte` and `short`
widen to `uint`, which holds no negative numbers, and a character widens to unsigned types, although
its code may be negative and, for `ushort`, too large.

A cast with a test for overflow compares the integer part of a number with the bounds of the target,
as numbers of any size, and then converts the number through integers of 64 bits. The two agree
wherever the test lets a number through: the cast gives the number cut off toward zero, or fails,
and never wraps.
-/

namespace Formulary

/-- What a conversion makes of a value, if there is any work for it. -/
def Conversion.applied (host : Host) (v : Value) : Option Conversion → Eval Value
  | none => pure v
  | some c => c.apply host v

namespace Whole

/-- Whether a type holds every number that another one holds. -/
def spans (target source : Whole) : Bool :=
  target.kind.low ≤ source.kind.low && source.kind.high ≤ target.kind.high

/-- A number that a conversion without a cast between two types does not keep. -/
inductive Loses : Whole → Whole → Int → Prop
  | sign {k : IntKind} {n : Int} (hk : k = .sbyte ∨ k = .short) (hn : n < 0) :
      Loses (.int k) (.int .uint) n
  | code {n : Int} (hn : n < 0 ∨ 0xFFFF < n) : Loses .char (.int .ushort) n
  | negative {k : IntKind} {n : Int} (hk : k = .uint ∨ k = .ulong ∨ k = .umachine) (hn : n < 0) :
      Loses .char (.int k) n

/-- The pairs of types that widen although the second does not hold every number of the first. -/
def narrowing : List (Whole × Whole) :=
  [(.int .sbyte, .int .uint), (.int .short, .int .uint), (.char, .int .ushort), (.char, .int .uint),
    (.char, .int .ulong), (.char, .int .umachine)]

variable {source target : Whole} {n : Int}

theorem spans_or_narrowing (h : Typing.widens source.type target.type = true) :
    target.spans source = true ∨ (source, target) ∈ narrowing := by
  cases source with
  | char =>
    cases target with
    | char => exact .inl rfl
    | int j =>
      revert h
      cases j <;> decide
  | int i =>
    cases target with
    | char =>
      revert h
      cases i <;> decide
    | int j =>
      revert h
      cases i <;> cases j <;> decide

theorem holds_of_spans (h : target.spans source = true) (hn : source.kind.holds n = true) :
    target.kind.holds n = true := by
  simp only [spans, Bool.and_eq_true, decide_eq_true_eq] at h
  rw [IntKind.holds_iff] at hn ⊢
  omega

/-- A number that is lost is not held by the type it is converted to. -/
theorem Loses.not_holds (h : Loses source target n) : ¬target.kind.holds n = true := by
  rw [IntKind.holds_iff]
  cases h with
  | sign hk hn => exact fun hheld => absurd (hheld.1.trans_lt hn) (lt_irrefl 0)
  | code hn =>
    rintro ⟨hlow, hhigh⟩
    have hlow : (0 : Int) ≤ n := hlow
    have hhigh : n ≤ 0xFFFF := hhigh
    omega
  | negative hk hn =>
    rintro ⟨hlow, -⟩
    rcases hk with rfl | rfl | rfl <;> exact absurd (hlow.trans_lt hn) (lt_irrefl 0)

/-- Between the types of an exception, what the second does not hold is what the exception says. -/
theorem loses_of_narrowing (h : (source, target) ∈ narrowing) (hn : source.kind.holds n = true)
    (hlost : ¬target.kind.holds n = true) : Loses source target n := by
  rw [IntKind.holds_iff] at hn hlost
  simp only [narrowing, List.mem_cons, Prod.mk.injEq, List.not_mem_nil, or_false] at h
  rcases h with ⟨rfl, rfl⟩ | ⟨rfl, rfl⟩ | ⟨rfl, rfl⟩ | ⟨rfl, rfl⟩ | ⟨rfl, rfl⟩ | ⟨rfl, rfl⟩ <;>
    simp [kind, IntKind.low, IntKind.high, IntKind.unsigned, IntKind.bits] at hn hlost
  · exact .sign (.inl rfl) (by omega)
  · exact .sign (.inr rfl) (by omega)
  · exact .code (by omega)
  · exact .negative (.inl rfl) (by omega)
  · exact .negative (.inr (.inl rfl)) (by omega)
  · exact .negative (.inr (.inr rfl)) (by omega)

/-- A type holds what widens to it, apart from the numbers that are lost. -/
theorem holds_iff_not_loses (h : Typing.widens source.type target.type = true)
    (hn : source.kind.holds n = true) :
    target.kind.holds n = true ↔ ¬Loses source target n := by
  refine ⟨fun hheld hloses => hloses.not_holds hheld, fun hkept => ?_⟩
  rcases spans_or_narrowing h with hspans | hnarrowing
  · exact holds_of_spans hspans hn
  · by_contra hlost
    exact hkept (loses_of_narrowing hnarrowing hn hlost)

/-- The conversion between types of whole numbers that widen, if the host has none of its own. -/
theorem applied_implicit? (host : Host) {ops : Operators}
    (h : Typing.widens source.type target.type = true)
    (huser : ops.implicit? source.type target.type = none) (hn : source.kind.holds n = true) :
    ∃ how, Typing.implicit? host ops source.type target.type = some how ∧
      Conversion.applied host (source.value n) how = pure (target.value (target.kind.wrap n)) := by
  unfold Typing.implicit?
  by_cases hsame : source = target
  · subst hsame
    exact ⟨none, by simp, by rw [IntKind.wrap_of_holds hn]; rfl⟩
  · have htype : ¬(source.type == target.type) = true := by
      cases source <;> cases target <;> simp_all [type]
    have hnull : ¬(source.type == .null) = true := by cases source <;> simp [type]
    refine ⟨some
      (.numeric target.type), by rw [if_neg htype, if_neg hnull, huser]; exact if_pos h, ?_⟩
    have hnumeric : (source.value n).toNumeric target.type = target.value (target.kind.wrap n) := by
      have hnumber : (source.value n).number? = some (n : ℚ) := by cases source <;> rfl
      rw [Value.toNumeric_whole hnumber, towardZero_intCast]
    rw [← hnumeric]
    cases target <;> rfl

end Whole

/-- A conversion without a cast between types of whole numbers gives the number of the target that
equals the one converted modulo the width. It is the same number unless it is negative and goes from
`sbyte` or `short` to `uint`, or is the code of a character and goes to an unsigned type that does
not hold it. -/
theorem widening_keeps (host : Host) (ops : Operators) (source target : Whole)
    (hwidens : Typing.widens source.type target.type = true)
    (huser : ops.implicit? source.type target.type = none)
    (n : Int) (hn : source.kind.holds n = true) :
    ∃ how m, Typing.implicit? host ops source.type target.type = some how ∧
      Conversion.applied host (source.value n) how = pure (target.value m) ∧
      target.kind.holds m = true ∧ m ≡ n [ZMOD 2 ^ target.kind.bits] ∧
        (m = n ↔ ¬Whole.Loses source target n) := by
  obtain ⟨how, hhow, happlied⟩ := Whole.applied_implicit? host hwidens huser hn
  refine ⟨how, _, hhow, happlied, target.kind.holds_wrap n, target.kind.wrap_modEq n, ?_⟩
  rw [IntKind.wrap_eq_self, Whole.holds_iff_not_loses hwidens hn]

/-- A negative short integer stays the same as a long one. -/
theorem widening_keeps_short : ∃ how, Typing.implicit? .bare {} (.int .short)
    (.int .long) = some how ∧
    Conversion.applied .bare (.int .short (-2)) how = pure (.int .long (-2)) := by
  obtain ⟨how, m, hhow, happlied, -, -, hsame⟩ :=
    widening_keeps .bare {} (.int .short) (.int .long) rfl rfl (-2) (by decide)
  obtain rfl : m = -2 := hsame.2 nofun
  exact ⟨how, hhow, happlied⟩

/-- A negative number of type `sbyte` becomes a large one of type `uint`. -/
theorem widening_loses_sign : Typing.widens (.int .sbyte) (.int .uint) = true ∧
    IntKind.sbyte.holds (-1) = true ∧
    ∃ how, Typing.implicit? .bare {} (.int .sbyte) (.int .uint) = some how ∧
      Conversion.applied .bare (.int .sbyte (-1)) how = pure (.int .uint 4294967295) :=
  ⟨rfl, rfl, some (.numeric (.int .uint)), rfl, rfl⟩

namespace Whole

/-- Whether a number can be cast to a type: a character has a code up to the last code point. -/
def admits : Whole → Int → Bool
  | int k, n => k.holds n
  | char, n => 0 ≤ n && n ≤ 0x10FFFF

variable {target : Whole} {n : Int}

theorem holds_of_admits (h : target.admits n = true) : target.kind.holds n = true := by
  cases target with
  | int k => exact h
  | char =>
    simp only [admits, Bool.and_eq_true, decide_eq_true_eq] at h
    rw [IntKind.holds_iff]
    exact ⟨le_trans (by decide) h.1, le_trans h.2 (by decide)⟩

/-- The bounds of a cast are those of the type. -/
theorem admits_iff_castRange :
    target.admits n = true ↔
      ¬(n < (castRange target.type).1 || (castRange target.type).2 < n) = true := by
  simp only [Bool.or_eq_true, decide_eq_true_eq, not_or, Int.not_lt]
  cases target with
  | int k => exact IntKind.holds_iff
  | char => simp [admits, castRange, type]

/-- Characters and integers are no interfaces, so that nothing implements them. -/
theorem not_implements (host : Host) (source : Ty) (target : Whole) :
    host.implements source target.type = false := by
  cases target <;> rfl

theorem isNumber_type (w : Whole) : w.type.isNumber = true := by
  cases w <;> rfl

end Whole

/-- The type of a number is numeric or decimal. -/
theorem Value.isNumber_of_number? {v : Value} {q : ℚ} {t : Ty} (hq : v.number? = some q)
    (ht : v.type? = some t) :
    t.isNumber = true := by
  cases v with
  | int | char | decimal =>
    cases ht
    rfl
  | _ => cases hq

namespace Typing

variable {host : Host} {ops : Operators} {source : Ty} {target : Whole}

/-- A number is cast to another type of whole numbers as a number, if the host has no conversion of
its own. -/
theorem explicit?_number (hsource : source.isNumber = true) (hne : source ≠ target.type)
    (huser : ops.explicit? source target.type = none) :
    explicit? host ops source target.type = some (some (.numeric target.type)) := by
  have hne' : ¬(source == target.type) = true := by simpa using hne
  have hnull : ¬(source == .null) = true := by
    rw [beq_iff_eq]
    rintro rfl
    cases hsource
  have himplicit : ops.implicit? source target.type = none := (Option.or_eq_none_iff.1 huser).2
  have hcases : implicit? host ops source target.type =
      if widens source target.type then some (some (.numeric target.type)) else none := by
    rw [implicit?, if_neg hne', if_neg hnull, himplicit]
    simp only [Whole.not_implements, Bool.false_eq_true, if_false]
  unfold explicit?
  rw [hcases]
  split
  · rename_i how hhow
    split at hhow
    · exact hhow.symm
    · cases hhow
  · rw [huser]
    simp only [hsource, Whole.isNumber_type, Bool.and_self, if_true]

theorem checkedExplicit?_number (hsource : source.isNumber = true) (hne : source ≠ target.type)
    (huser : ops.explicit? source target.type = none) :
    checkedExplicit? host ops source target.type = some (some (.checked target.type)) := by
  have hwhole : (target.type.isIntegral || target.type == .char) = true := by cases target <;> rfl
  rw [checkedExplicit?, explicit?_number hsource hne huser]
  simp only [hwhole, hsource, huser, Option.isNone_none, Bool.and_self, if_true]

end Typing

/-- The test lets through exactly the numbers that the type admits once they are cut off, and gives
them as they are. -/
theorem Conversion.apply_checked (host : Host) {v : Value} {q : ℚ} (hq : v.number? = some q)
    (target : Whole) :
    (Conversion.checked target.type).apply host v =
      if target.admits (towardZero q) then pure (target.value (towardZero q))
      else failed (.within s!"cast to {target.type.name}" (.fault .overflow)) := by
  have hconvert : convertNumeric target.type v = pure (v.toNumeric target.type) := by
    cases target <;> rfl
  unfold Conversion.apply
  dsimp only
  rw [Value.integerPart?_of_number? hq]
  dsimp only
  by_cases hadmits : target.admits (towardZero q) = true
  · rw [if_neg (Whole.admits_iff_castRange.1 hadmits), if_pos hadmits, hconvert,
      Value.toNumeric_whole hq, IntKind.wrap_of_holds (Whole.holds_of_admits hadmits)]
  · rw [if_pos (not_not.1 (mt Whole.admits_iff_castRange.2 hadmits)), if_neg hadmits]

/-- A checked cast of an integer, a character or a decimal to another type of whole numbers gives
the number cut off toward zero where the type admits it, and fails with an overflow otherwise. -/
theorem checked_cast_exact (host : Host) (ops : Operators) (source : Ty) (target : Whole)
    (hne : source ≠ target.type) (huser : ops.explicit? source target.type = none) (v : Value)
    (htype : v.type? = some source) (q : ℚ) (hq : v.number? = some q) :
    ∃ how, Typing.checkedExplicit? host ops source target.type = some (some how) ∧
      how.apply host v =
        if target.admits (towardZero q) then pure (target.value (towardZero q))
        else failed (.within s!"cast to {target.type.name}" (.fault .overflow)) :=
  ⟨.checked target.type, Typing.checkedExplicit?_number
    (Value.isNumber_of_number? hq htype) hne huser,
    Conversion.apply_checked host hq target⟩

/-- Minus one half is cut off to zero, which every unsigned type admits. -/
theorem checked_cast_half : ∃ how, Typing.checkedExplicit? .bare {} .decimal (.int .ulong) =
    some (some how) ∧
    how.apply .bare (.decimal ⟨-5, -1⟩ .fresh) = pure (.int .ulong 0) := by
  obtain ⟨how, hhow, happly⟩ :=
    checked_cast_exact .bare {} .decimal (.int .ulong) nofun rfl
      (.decimal ⟨-5, -1⟩ .fresh) rfl _ rfl
  rw [← Decimal.wholePart_eq] at happly
  exact ⟨how, hhow, happly⟩

end Formulary
