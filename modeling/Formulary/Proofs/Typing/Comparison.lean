import Formulary.Proofs.Build.Operated
import Formulary.Proofs.Element.Comparison
import Formulary.Proofs.Element.Results
import Formulary.Proofs.Typing.Applicability
import Formulary.Proofs.Typing.Conversion

/-!
# Which types are compared, and how

Two types determine how their values are compared, or that they are not, and their order does not
matter (`comparison?_comm`), although texts, built-in overloads, numbers, enumerations and objects
are tried one after another. Whole numbers are compared in a type that holds the numbers of both, or
in one like the wider of theirs (`Whole.compared_all`).
-/

namespace Formulary

namespace Typing

def numerics : List Ty :=
  [.char, .single, .double, .int .sbyte, .int .byte, .int .short, .int .ushort, .int .int,
    .int .uint, .int .long, .int .ulong, .int .machine, .int .umachine]

/-- The type with built-in comparisons that one of two operands has and the other widens to. -/
def ordered? (l r : Ty) : Option Ty :=
  Builtin.ordered.find? fun t => (l == t || r == t) && (widens l t && widens r t)

/-- How the values of two types are compared, for equality or by their order. -/
def comparison? (host : Host) (equality : Bool) (l r : Ty) : Option Comparison :=
  if l == .string && r == .string then if equality then some .texts else none
  else
    match ordered? l r, operandType? l r with
    | some t, _ => some (.ordered t)
    | none, some t => some (.numbers (widened t))
    | none, none =>
      if equality then if Build.areComparable host l r then some .objects else none
      else if l == r && l.isEnum then some .enums else none

variable {host : Host} {ops : Operators} {l r t u : Ty}

theorem mem_numerics (h : t.isNumeric = true) : t ∈ numerics := by
  cases t with
  | int k => cases k <;> decide
  | char | single | double => decide
  | _ => cases h

theorem isNumeric_normal (t : Ty) : t.normal.isNumeric = t.isNumeric := by
  cases t <;> rfl

theorem isNumeric_of_operandType? (h : operandType? l r = some t) : l.isNumeric = true ∧
    r.isNumeric = true := by
  refine of_ite_eq_some h (fun _ => nofun) fun hnumeric _ => ?_
  simpa [isNumeric_normal] using hnumeric

/-- The type in which two numbers are computed with is the same in either order. Both widen to it,
and there is one wherever one number widens to the other. -/
theorem operandType?_numerics : ∀ l ∈ numerics, ∀ r ∈ numerics,
    operandType? l r = operandType? r l ∧
    (∀ t ∈ operandType? l r, widens l (widened t) = true ∧ widens r (widened t) = true) ∧
    (widens l r = true → (operandType? l r).isSome = true) := by
  decide +kernel

theorem operandType?_comm (l r : Ty) : operandType? l r = operandType? r l := by
  have hnumeric : ∀ {a b t}, operandType? a b = some t → operandType? a b = operandType? b a := by
    intro a b t h
    obtain ⟨ha, hb⟩ := isNumeric_of_operandType? h
    exact (operandType?_numerics a (mem_numerics ha) b (mem_numerics hb)).1
  cases h : operandType? l r with
  | some t => exact h ▸ hnumeric h
  | none =>
    cases h' : operandType? r l with
    | none => rfl
    | some t => exact absurd ((hnumeric h').symm.trans h') (by simp [h])

/-- Numbers widen to the type that they are compared in. -/
theorem widens_operandType? (h : operandType? l r = some t) :
    widens l (widened t) = true ∧ widens r (widened t) = true := by
  obtain ⟨hl, hr⟩ := isNumeric_of_operandType? h
  exact (operandType?_numerics l (mem_numerics hl) r (mem_numerics hr)).2.1 t h

theorem ordered?_comm (l r : Ty) : ordered? l r = ordered? r l := by
  simp only [ordered?, Bool.or_comm (l == _), Bool.and_comm (widens l _)]

theorem areComparable_comm (host : Host) (l r : Ty) :
    Build.areComparable host l r = Build.areComparable host r l := by
  by_cases h : l = r
  · subst h
    rfl
  · simp only [Build.areComparable, beq_false_of_ne h, beq_false_of_ne (Ne.symm h),
      Bool.false_and, Bool.false_or]
    rw [Bool.eq_iff_iff]
    simp only [Bool.or_eq_true, Bool.and_eq_true]
    tauto

/-- The order of two types does not matter for how their values are compared. -/
theorem comparison?_comm (host : Host) (equality : Bool) (l r : Ty) :
    comparison? host equality l r = comparison? host equality r l := by
  have henum : (l == r && l.isEnum) = (r == l && r.isEnum) := by
    by_cases h : l = r
    · subst h
      rfl
    · rw [beq_false_of_ne h, beq_false_of_ne (Ne.symm h), Bool.false_and, Bool.false_and]
  unfold comparison?
  rw [Bool.and_comm (l == .string), ordered?_comm l r, operandType?_comm l r,
    areComparable_comm host l r, henum]

/-- What widens to another type is a number. -/
theorem isNumber_of_widens_of_ne (h : widens t u = true) (hne : t ≠ u) : t.isNumber = true := by
  obtain ⟨hpos, hle⟩ := rank_of_widens h hne
  have hrank : u.rank ≤ 11 := by
    have hnumber := isNumber_of_widens h hne
    cases u with
    | int k => cases k <;> decide
    | char | single | double | decimal => decide
    | _ => cases hnumber
  have hless := hle.trans hrank
  cases t with
  | int | char | single | double | decimal => rfl
  | bool | dateTime => exact absurd hless (by decide)
  | _ => exact absurd hpos (Nat.lt_irrefl 0)

/-- A type with built-in comparisons widens to no other. -/
theorem eq_of_widens_of_ordered (ht : t ∈ Builtin.ordered) (h : widens t u = true) : t = u := by
  by_contra hne
  have hdecimal : ∀ t ∈ Builtin.ordered, t.isNumber = true → t = .decimal := by decide
  obtain rfl := hdecimal t ht (isNumber_of_widens_of_ne h hne)
  have hnumber := isNumber_of_widens h hne
  cases u with
  | int k => cases k <;> cases h
  | decimal => exact hne rfl
  | char | single | double => cases h
  | _ => cases hnumber

/-- The type with built-in comparisons for two operands is the only one that serves. -/
theorem ordered?_eq_some_iff {v : Ty} :
    ordered? l r = some v ↔ v ∈ Builtin.ordered ∧ (v = l ∨ v = r) ∧ widens l v = true ∧
      widens r v = true := by
  have hof : ∀ {w}, ordered? l r = some w →
      w ∈ Builtin.ordered ∧ (w = l ∨ w = r) ∧ widens l w = true ∧ widens r w = true := by
    intro w h
    have hw := List.find?_some h
    simp only [Bool.and_eq_true, Bool.or_eq_true, beq_iff_eq] at hw
    exact ⟨List.mem_of_find?_eq_some h, hw.1.imp Eq.symm Eq.symm, hw.2⟩
  refine ⟨hof, fun ⟨hmem, hv, hl, hr⟩ => ?_⟩
  cases h : ordered? l r with
  | none =>
    have hnone := List.find?_eq_none.1 h v hmem
    simp only [Bool.and_eq_true, Bool.or_eq_true, beq_iff_eq] at hnone
    exact absurd ⟨hv.imp Eq.symm Eq.symm, hl, hr⟩ hnone
  | some w =>
    obtain ⟨hmem', hw, hl', hr'⟩ := hof h
    have hsame : w = v := by
      rcases hw with rfl | rfl
      · exact eq_of_widens_of_ordered hmem' hl
      · exact eq_of_widens_of_ordered hmem' hr
    rw [hsame]

/-- To a type with built-in comparisons there are no conversions but those of numbers, unless the
host has some. -/
theorem isSome_implicit?_ordered (hu : u ∈ Builtin.ordered) (huser : ops.implicit? t u = none) :
    (implicit? host ops t u).isSome = widens t u := by
  have hplain : ∀ u ∈ Builtin.ordered, u.isNullable = false ∧ u.isInterface = false ∧
    widens .null u = false := by decide
  obtain ⟨hnull, hface, hwidens⟩ := hplain u hu
  unfold implicit?
  by_cases hsame : t = u
  · subst hsame
    simp [widens]
  rw [if_neg (by simpa using hsame)]
  by_cases ht : t = .null
  · subst ht
    simp [hnull, hwidens]
  rw [if_neg (by simpa using ht), huser]
  have himplements : host.implements t u = false := by simp [Host.implements, hface]
  cases h : widens t u <;> simp [himplements]

/-- The conversions without a cast that are none of the host's. -/
theorem implicit?_cases {how : Option Conversion} (huser : ops.implicit? t u = none)
    (h : implicit? host ops t u = some how) :
    t = u ∧ how = none ∨ t ≠ u ∧
      (t = .null ∧ u.isNullable = true ∧ how = some (.nullTo u) ∨ t ≠ .null ∧
        (widens t u = true ∧ how = some (.numeric u) ∨
          ¬widens t u = true ∧ host.implements t u = true ∧ how = none)) := by
  unfold implicit? at h
  split at h
  · rename_i hsame
    exact .inl ⟨eq_of_beq hsame, (Option.some.inj h).symm⟩
  · rename_i hsame
    refine .inr ⟨by simpa using hsame, ?_⟩
    split at h
    · rename_i hnull
      split at h
      · rename_i hnullable
        exact .inl ⟨eq_of_beq hnull, hnullable, (Option.some.inj h).symm⟩
      · cases h
    · rename_i hnull
      refine .inr ⟨by simpa using hnull, ?_⟩
      simp only [huser] at h
      split at h
      · rename_i hwidens
        exact .inl ⟨hwidens, (Option.some.inj h).symm⟩
      · rename_i hwidens
        split at h
        · rename_i himplements
          exact .inr ⟨hwidens, himplements, (Option.some.inj h).symm⟩
        · cases h

/-- Numbers are compared with singles and doubles as such. -/
theorem operandType?_real : ∀ u ∈ numerics, ∀ t ∈ [Ty.single, .double], widens u t = true →
    operandType? u t = some t ∧ widened t = t := by
  decide +kernel

/-- What widens to a type of whole numbers is one. -/
theorem exists_whole (ht : t.isNumeric = true) (hu : u.isNumeric = true) (h : widens t u = true) :
    (u = .single ∨ u = .double) ∨ ∃ a b : Whole, t = a.type ∧ u = b.type := by
  cases u with
  | single => exact .inl (.inl rfl)
  | double => exact .inl (.inr rfl)
  | char =>
    cases t with
    | char => exact .inr ⟨.char, .char, rfl, rfl⟩
    | int k => exact .inr ⟨.int k, .char, rfl, rfl⟩
    | single | double => cases h
    | _ => cases ht
  | int j =>
    cases t with
    | char => exact .inr ⟨.char, .int j, rfl, rfl⟩
    | int k => exact .inr ⟨.int k, .int j, rfl, rfl⟩
    | single | double => cases j <;> cases h
    | _ => cases ht
  | _ => cases hu

/-- Numbers that convert to one another have a comparison of their own. -/
theorem not_widens_of_incomparable (ho : ordered? t u = none)
    (hnumbers : operandType? t u = none) (hne : t ≠ u) :
    ¬widens t u = true := by
  intro h
  have hu := isNumber_of_widens_of_ne h hne
  have ht := isNumber_of_widens h hne
  by_cases hdecimal : u = .decimal
  · subst hdecimal
    rw [ordered?_eq_some_iff.2 ⟨by decide, .inr rfl, h, rfl⟩] at ho
    cases ho
  · have hsource : t ≠ .decimal := by
      rintro rfl
      exact hne (eq_of_widens_of_ordered (by decide) h)
    have hnumeric : ∀ {t : Ty}, t.isNumber = true → t ≠ .decimal → t ∈ numerics := by
      intro t ht hdecimal
      exact mem_numerics (by simpa [Ty.isNumber, hdecimal] using ht)
    have hsome := (operandType?_numerics t (hnumeric hu hsource) u (hnumeric ht hdecimal)).2.2 h
    rw [hnumbers] at hsome
    cases hsome

/-- How values are compared for equality. -/
theorem comparison?_cases {c : Comparison} (h : comparison? host true l r = some c) :
    c = .texts ∧ l = .string ∧ r = .string ∨ (∃ t, c = .ordered t ∧ ordered? l r = some t) ∨
      (∃ t, c = .numbers (widened t) ∧ operandType? l r = some t) ∨
      c = .objects ∧ ordered? l r = none ∧ operandType? l r = none := by
  unfold comparison? at h
  split at h
  · rename_i hstring
    rw [Bool.and_eq_true, beq_iff_eq, beq_iff_eq] at hstring
    exact .inl ⟨(Option.some.inj h).symm, hstring⟩
  · split at h
    · rename_i hordered
      exact .inr (.inl ⟨_, (Option.some.inj h).symm, hordered⟩)
    · rename_i hordered hnumbers
      exact .inr (.inr (.inl ⟨_, (Option.some.inj h).symm, hnumbers⟩))
    · rename_i hordered hnumbers
      rw [if_pos rfl] at h
      split at h
      · exact .inr (.inr (.inr ⟨(Option.some.inj h).symm, hordered, hnumbers⟩))
      · cases h

end Typing

namespace Whole

/-- The types of whole numbers. -/
def all : List Whole :=
  [.char, .int .sbyte, .int .byte, .int .short, .int .ushort, .int .int, .int .uint,
    .int .long, .int .ulong, .int .machine, .int .umachine]

theorem mem_all (w : Whole) : w ∈ all := by
  cases w with
  | char => decide
  | int k => cases k <;> decide

/-- Types that widen to one that does not hold all their numbers, and are compared with it in a type
that does. -/
def parted : List (Whole × Whole) :=
  [(.char, .int .ushort), (.int .sbyte, .int .uint), (.int .short, .int .uint)]

/-- Whole numbers are compared in a type like the wider of theirs, or in one that holds the numbers
of both. -/
theorem compared_all : ∀ a ∈ all, ∀ b ∈ all, Typing.widens a.type b.type = true →
    ∀ t ∈ Typing.operandType? a.type b.type, ∃ k ∈ [IntKind.int, .uint, .long, .ulong],
      Typing.widened t = .int k ∧
      (k.unsigned = b.kind.unsigned ∧ k.bits = b.kind.bits ∨
        (Whole.int k).spans a = true ∧ (Whole.int k).spans b = true ∧
          (b.spans a = true ∨ (a, b) ∈ parted)) := by
  decide +kernel

end Whole

end Formulary
