import Formulary.Proofs.Build.Opposite
import Formulary.Proofs.Element.Indexing
import Formulary.Proofs.Typing.Comparison

/-!
# Values sought in collections

A search in a collection goes through the items until one equals the value, and does not get stuck
at an item before one that does (`Host.run_holds_eq_true`). It compares the items with the value as
it is carried to their type; an operator compares both as the type of its comparison. The search
finds an item where the operator finds it equal and the two agree in what the operator may overlook:
the letter case of texts, the zone of times, and the storage of decimals
(`Host.valuesEqual_carried_iff`).
-/

namespace Formulary

namespace Value

mutual

/-- What is the same as some value can be compared with every value. -/
theorem sameValue_ne_none {u v : Value} (w : Value) (h : u.sameValue v = some true) :
    w.sameValue v ≠ none := by
  cases v with
  | record n vs =>
    cases u with
    | record m us =>
      rw [sameValue] at h
      split at h
      · cases w with
        | record l ws =>
          rw [sameValue]
          split
          · exact sameValues_ne_none ws h
          · exact nofun
        | _ => nofun
      · cases h
    | _ => cases h
  | array t vs =>
    cases u with
    | array t' us =>
      rw [sameValue] at h
      split at h
      · cases w with
        | array l ws =>
          rw [sameValue]
          split
          · exact sameValues_ne_none ws h
          · exact nofun
        | _ => nofun
      · cases h
    | _ => cases h
  | missing t =>
    cases u with
    | missing t' =>
      unfold sameValue at h
      split at h
      · split at h
        · rename_i heq
          obtain rfl := eq_of_beq heq
          cases w with
          | missing t'' =>
            unfold sameValue
            split
            · rename_i heq'
              rw [eq_of_beq heq']
              exact nofun
            · exact nofun
          | _ => nofun
        · cases h
      · cases h
    | _ => cases h
  | slice t m vs =>
    cases u with
    | slice t' m' us =>
      rw [sameValue] at h
      split at h <;> cases h
    | _ => cases h
  | map k t m ks vs =>
    cases u with
    | map k' t' m' ks' us =>
      rw [sameValue] at h
      split at h <;> cases h
    | _ => cases h
  | _ => cases w <;> exact nofun

theorem sameValues_ne_none {us vs : List Value} (ws : List Value)
    (h : sameValues us vs = some true) :
    sameValues ws vs ≠ none := by
  cases vs with
  | nil => cases ws <;> exact nofun
  | cons v vs =>
    cases us with
    | nil => cases h
    | cons u us =>
      cases ws with
      | nil => exact nofun
      | cons w ws =>
        rw [sameValues] at h ⊢
        cases huv : u.sameValue v with
        | none => simp [huv] at h
        | some same =>
          cases same with
          | false => simp [huv] at h
          | true =>
            have hrest : sameValues ws vs ≠ none := sameValues_ne_none ws (by simpa [huv] using h)
            have hfirst := sameValue_ne_none w huv
            cases hwv : w.sameValue v with
            | none => exact absurd hwv hfirst
            | some same =>
              cases same with
              | true => exact hrest
              | false => exact nofun

end

end Value

section Search

open Build (itemType?)

variable {host : Host} {t collection : Ty} {u v w c : Value} {items : List Value}
  {tally tally' : Tally}

/-- How two values of one type are compared: by their storage or part by part. -/
def Host.sameOf (host : Host) (t : Ty) (u v : Value) : Option Bool :=
  match t with
  | .slice .. | .map .. => some (u.sharesStorage v)
  | _ => if host.isComparable t then u.sameValue v else some false

theorem Host.valuesEqual_of_type (hu : u.isNil = false) (hv : v.isNil = false)
    (ht : u.type? = some t)
    (ht' : v.type? = some t) : host.valuesEqual u v = host.sameOf t u v := by
  unfold valuesEqual
  rw [hu, hv, ht, ht']
  simp only [Bool.or_self, Bool.false_eq_true, if_false, bne_self_eq_false]
  rfl

/-- Only missing values and values of one type are more than different. -/
theorem Host.types_of_valuesEqual (h : host.valuesEqual u v ≠ some false) :
    u.isNil = true ∧ v.isNil = true ∨
      u.isNil = false ∧ v.isNil = false ∧ ∃ t, u.type? = some t ∧ v.type? = some t := by
  unfold valuesEqual at h
  cases hu : u.isNil <;> cases hv : v.isNil <;> rw [hu, hv] at h
  · refine .inr ⟨rfl, rfl, ?_⟩
    cases ht : u.type? with
    | none => simp [ht] at h
    | some t =>
      cases ht' : v.type? with
      | none => simp [ht, ht'] at h
      | some t' =>
        by_cases hsame : t = t'
        · exact ⟨t, rfl, by rw [hsame]⟩
        · simp [ht, ht', hsame] at h
  · exact absurd rfl h
  · exact absurd rfl h
  · exact .inl ⟨rfl, rfl⟩

end Search

/-- A value is written as one of a type, if this is a type of numbers, texts or times. -/
def Value.WrittenAs (v : Value) : Ty → Prop
  | .int k => ∃ n, v = .int k n
  | .char => ∃ n, v = .char n
  | .single => ∃ x, v = .single x
  | .double => ∃ x, v = .double x
  | .decimal => ∃ x m, v = .decimal x m
  | .string => ∃ x, v = .string x
  | .dateTime => ∃ x, v = .dateTime x
  | .timeSpan => ∃ x, v = .timeSpan x
  | _ => True

/-- What a value of a type becomes where another type is expected, if the host has no conversions of
its own. -/
def Host.carried (host : Host) (u t : Ty) (v : Value) : Value :=
  if u = t then v else if u = .null then host.zero t else if Typing.widens u t then
    v.toNumeric t else v

/-- A type goes where another one is expected, without conversions of the host: it is this type, it
is the type of null or of narrower numbers, or it offers the methods of an interface. -/
def Host.Suits (host : Host) (u t : Ty) : Prop :=
  u = t ∨ u = .null ∧ t.isNullable = true ∨ Typing.widens u t = true ∨ u ≠ .null ∧
    host.implements u t = true

/-- Two values agree in what an operator may overlook and a search in a collection does not: the
letters of texts, the zones of times, and the storage and the places of decimals. -/
def Value.alike : Value → Value → Bool
  | .string a, .string b => a == b
  | .dateTime a, .dateTime b => sameZone a.zone b.zone
  | .decimal a m, .decimal b n => m.same n && a.exponent == b.exponent
  | _, _ => true

def Comparison.Equates (host : Host) (ignoreCase : Bool) (c : Comparison) (a b : Value) : Prop :=
  (c.operation ignoreCase .equal).apply host a b = pure (.bool true)

section Equal

variable {host : Host} {ignoreCase : Bool} {t : Ty} {a b v w : Value}

theorem Host.alike_of_valuesEqual (h : host.valuesEqual w v = some true) : v.alike w = true := by
  rcases types_of_valuesEqual (by rw [h]; exact nofun) with ⟨-, hv⟩ | ⟨hw, hv, t, ht, ht'⟩
  · cases v <;> first | rfl | cases hv
  rw [valuesEqual_of_type hw hv ht ht'] at h
  cases v with
  | string x =>
    cases w with
    | string y =>
      cases ht
      have hsame : (y == x) = true := Option.some.inj h
      rwa [BEq.comm] at hsame
    | _ => rfl
  | dateTime x =>
    cases w with
    | dateTime y =>
      cases ht
      have hsame : (y.sameInstant x && Value.sameZone y.zone x.zone) = true := Option.some.inj h
      rw [Bool.and_eq_true, Value.sameZone_comm] at hsame
      exact hsame.2
    | _ => rfl
  | decimal x m =>
    cases w with
    | decimal y n =>
      cases ht
      have hsame : (n.same m && y.exponent == x.exponent) = true := Option.some.inj h
      rwa [Mark.same_comm, BEq.comm] at hsame
    | _ => rfl
  | _ => rfl

theorem eq_of_compare {x y : Int} : compareOfLessAndEq x y = .eq ↔ x = y := Int.compare_eq_eq

theorem decides_equal {o : Ordering} : Operator.equal.decides o = true ↔ o = .eq := by
  cases o <;> decide

namespace Comparison

theorem equates_objects : objects.Equates host ignoreCase a b ↔
    host.valuesEqual a b = some true := by
  unfold Equates
  simp only [operation, Binary.apply]
  cases host.valuesEqual a b with
  | none =>
    exact ⟨fun h => absurd h breakdown_ne_pure, fun h => absurd h (Option.some_ne_none true).symm⟩
  | some same => cases same <;> simp [pure_bool_inj]

theorem equates_texts {x y : Text} : texts.Equates host ignoreCase (.string x) (.string y) ↔
    (if ignoreCase then Text.fold x == Text.fold y else x == y) = true := by
  unfold Equates
  simp only [operation, Binary.apply]
  rw [pure_bool_inj]
  show (_ != false) = true ↔ _
  rw [Bool.bne_false]

theorem equates_ordered (ha : a.type? = some t) (hb : b.type? = some t) :
    (ordered t).Equates host ignoreCase a b ↔ Builtin.order t a b = .eq := by
  have haccepts : ∀ {v : Value}, v.type? = some t → host.accepts t v = true := by
    intro v hv
    simp [Host.accepts, hv, Host.suits]
  unfold Equates
  simp only [operation, Binary.apply, Builtin.comparison, Host.invoke_two, ha, hb,
    Option.isNone_some, Bool.false_eq_true, if_false, haccepts ha, haccepts hb,
    Bool.and_self, if_true]
  rw [pure_bool_inj, decides_equal]

theorem equates_integers {k : IntKind} {m n : Int} :
    (numbers (.int k)).Equates host ignoreCase (.int k m) (.int k n) ↔ m = n := by
  unfold Equates
  simp only [operation, Binary.apply, beq_self_eq_true, Bool.and_self, if_true]
  rw [pure_bool_inj, decides_equal, eq_of_compare]

theorem equates_doubles {x y : Float} :
    (numbers .double).Equates host ignoreCase (.double x) (.double y) ↔
      (x == y) = true := pure_bool_inj

theorem equates_singles {x y : Float32} :
    (numbers .single).Equates host ignoreCase (.single x) (.single y) ↔
      (x.toFloat == y.toFloat) = true := pure_bool_inj

end Comparison

end Equal

namespace Whole

variable {source target : Whole} {m n : Int} {host : Host} {ignoreCase : Bool}

/-- A whole number carried to a type that it widens to. -/
theorem carried_value (h : Typing.widens source.type target.type = true)
    (hn : source.kind.holds n = true) :
    host.carried source.type target.type (source.value n) = target.value (target.kind.wrap n) := by
  unfold Host.carried
  by_cases hsame : source = target
  · subst hsame
    rw [if_pos rfl, IntKind.wrap_of_holds hn]
  · have hne : source.type ≠ target.type := by
      cases source <;> cases target <;> simp_all [type]
    have hnull : source.type ≠ .null := by cases source <;> simp [type]
    have hnumber : (source.value n).number? = some (n : ℚ) := by cases source <;> rfl
    rw [if_neg hne, if_neg hnull, if_pos h, Value.toNumeric_whole hnumber, towardZero_intCast]

theorem valuesEqual_value : host.valuesEqual (target.value m) (target.value n) = some (m == n) := by
  cases target with
  | char => rfl
  | int k =>
    have hsame : host.sameOf (.int k) (.int k m) (.int k n) = some (k == k && m == n) := rfl
    rw [beq_self_eq_true, Bool.true_and] at hsame
    exact (Host.valuesEqual_of_type rfl rfl rfl rfl).trans hsame

theorem alike_value : (target.value n).alike (target.value m) = true := by
  cases target <;> rfl

/-- Two whole numbers are compared as they are, or both modulo the width of the second one's
type. -/
theorem wrap_eq_wrap_iff {k : IntKind} (hn : source.kind.holds n = true)
    (hm : target.kind.holds m = true)
    (hk : k.unsigned = target.kind.unsigned ∧ k.bits = target.kind.bits ∨
      (Whole.int k).spans source = true ∧ (Whole.int k).spans target = true ∧
        target.kind.holds n = true) :
    m = target.kind.wrap n ↔ k.wrap n = k.wrap m := by
  rcases hk with ⟨hsign, hbits⟩ | ⟨hsource, htarget, hkept⟩
  · have hwrap : ∀ i, k.wrap i = target.kind.wrap i := by
      intro i
      rw [IntKind.wrap_def, IntKind.wrap_def, hsign, hbits]
    rw [hwrap, hwrap, IntKind.wrap_of_holds hm, eq_comm]
  · have hkn : k.holds n = true := holds_of_spans hsource hn
    have hkm : k.holds m = true := holds_of_spans htarget hm
    rw [IntKind.wrap_of_holds hkept, IntKind.wrap_of_holds hkn, IntKind.wrap_of_holds hkm, eq_comm]

/-- A whole number is found among numbers of a type that it widens to if the comparison in the wider
type finds them equal, unless the type of the items does not hold it. -/
theorem valuesEqual_carried_iff {t : Ty} (hwidens : Typing.widens source.type target.type = true)
    (ht : Typing.operandType? source.type target.type = some t) (hn : source.kind.holds n = true)
    (hm : target.kind.holds m = true) (hkept : (source, target) ∈ parted →
      target.kind.holds n = true) :
    host.valuesEqual (target.value m) (host.carried source.type target.type (source.value n)) =
      some true ↔
      (Comparison.numbers (Typing.widened t)).Equates host ignoreCase
        (host.carried source.type (Typing.widened t) (source.value n))
        (host.carried target.type (Typing.widened t) (target.value m)) := by
  obtain ⟨hsource, htarget⟩ := Typing.widens_operandType? ht
  obtain ⟨k, -, hk, hcases⟩ := compared_all source (mem_all source) target
    (mem_all target) hwidens t ht
  have hcompared : k.unsigned = target.kind.unsigned ∧ k.bits = target.kind.bits ∨
      (Whole.int k).spans source = true ∧ (Whole.int k).spans target = true ∧
        target.kind.holds n = true := by
    rcases hcases with hsame | ⟨hs, ht, hspans | hparted⟩
    · exact .inl hsame
    · exact .inr ⟨hs, ht, holds_of_spans hspans hn⟩
    · exact .inr ⟨hs, ht, hkept hparted⟩
  have hleft : host.carried source.type (.int k) (source.value n) = .int k (k.wrap n) :=
    @carried_value source (.int k) n host (by rwa [hk] at hsource) hn
  have hright : host.carried target.type (.int k) (target.value m) = .int k (k.wrap m) :=
    @carried_value target (.int k) m host (by rwa [hk] at htarget) hm
  rw [hk, hleft, hright, carried_value hwidens hn, valuesEqual_value, Comparison.equates_integers,
    ← wrap_eq_wrap_iff hn hm hcompared, Option.some_inj, beq_iff_eq]

end Whole

/-- What is known of a value that is sought and of an item: the integers within them are ones of
their types, null stands for no value, and decimals that share their storage have one coefficient.
Doubles tell apart what singles do. The last condition is that a number which an operator would
compare in a wider type is one of the type of the items. -/
structure Sought (u t : Ty) (v w : Value) : Prop where
  held : v.isHeld = true ∧ w.isHeld = true
  null : u = .null → v = .nil
  storage : ∀ x m y n, v = .decimal x m → w = .decimal y n → m.same n = true →
    x.coefficient = y.coefficient
  singles : t = .single → ∀ x y : Float32, (x.toFloat == y.toFloat) = (x == y)
  kept : ∀ a b n, (a, b) ∈ Whole.parted → u = a.type → t = b.type → v = a.value n →
    b.kind.holds n = true

namespace Host

variable {host : Host} {ignoreCase : Bool} {u t o : Ty} {v w : Value}

@[simp] theorem carried_self : host.carried t t v = v := if_pos rfl

/-- Where a value of a type with built-in comparisons is expected as one of another type, that type
does not widen to it. -/
theorem Suits.eq_of_ordered (h : host.Suits o t) (ho : o ∈ Builtin.ordered)
    (hto : Typing.widens t o = true) : o = t := by
  have hplain : ∀ o ∈ Builtin.ordered, o ≠ .null := by decide
  by_contra hne
  rcases h with h | ⟨h, -⟩ | h | ⟨-, h⟩
  · exact hne h
  · exact hplain o ho h
  · exact hne (Typing.eq_of_widens_of_ordered ho h)
  · have hface : t.isInterface = true := (Bool.and_eq_true_iff.1 h).1
    have hnumber := Typing.isNumber_of_widens_of_ne hto (Ne.symm hne)
    cases t with
    | object | face => cases hnumber
    | _ => cases hface

theorem valuesEqual_decimal_iff {x y : Decimal} {m n : Mark}
    (hstorage : m.same n = true → x.coefficient = y.coefficient) :
    host.valuesEqual (.decimal y n) (.decimal x m) = some true ↔
      (Comparison.ordered .decimal).Equates host ignoreCase (.decimal x m) (.decimal y n) ∧
        (Value.decimal x m).alike (.decimal y n) = true := by
  have hsame : host.sameOf .decimal (.decimal y n) (.decimal x m) =
    some (n.same m && y.exponent == x.exponent) := rfl
  rw [Comparison.equates_ordered rfl rfl, valuesEqual_of_type rfl rfl rfl rfl, hsame,
    Mark.same_comm, BEq.comm, Option.some_inj]
  refine ⟨fun h => ⟨?_, h⟩, fun h => h.2⟩
  rw [Bool.and_eq_true, beq_iff_eq] at h
  have heq : x = y := by
    cases x
    cases y
    exact congrArg₂ Decimal.mk (hstorage h.1) h.2
  rw [heq]
  exact eq_of_compare.2 rfl

theorem valuesEqual_dateTime_iff {x y : Calendar.Moment} :
    host.valuesEqual (.dateTime y) (.dateTime x) = some true ↔
      (Comparison.ordered .dateTime).Equates host ignoreCase (.dateTime x) (.dateTime y) ∧
        (Value.dateTime x).alike (.dateTime y) = true := by
  have hsame : host.sameOf .dateTime (.dateTime y) (.dateTime x) =
      some (y.sameInstant x && Value.sameZone y.zone x.zone) := rfl
  have horder : Builtin.order .dateTime (.dateTime x) (.dateTime y) =
    compareOfLessAndEq x.total y.total := rfl
  have hinstant : y.sameInstant x = true ↔ x.total = y.total := by
    rw [Calendar.Moment.sameInstant, beq_iff_eq, eq_comm]
  rw [Comparison.equates_ordered rfl rfl, valuesEqual_of_type rfl rfl rfl rfl, hsame,
    Option.some_inj, horder, eq_of_compare, Bool.and_eq_true, hinstant, Value.sameZone_comm]
  rfl

theorem valuesEqual_timeSpan_iff {x y : Int} :
    host.valuesEqual (.timeSpan y) (.timeSpan x) = some true ↔
      (Comparison.ordered .timeSpan).Equates host ignoreCase (.timeSpan x) (.timeSpan y) ∧
        (Value.timeSpan x).alike (.timeSpan y) = true := by
  have hsame : host.sameOf .timeSpan (.timeSpan y) (.timeSpan x) = some (y == x) := rfl
  have horder : Builtin.order .timeSpan (.timeSpan x) (.timeSpan y) = compareOfLessAndEq x y := rfl
  rw [Comparison.equates_ordered rfl rfl, valuesEqual_of_type rfl rfl rfl rfl, hsame,
    Option.some_inj, horder, eq_of_compare, beq_iff_eq, eq_comm]
  exact (and_iff_left rfl).symm

theorem valuesEqual_text_iff {x y : Text} :
    host.valuesEqual (.string y) (.string x) = some true ↔
      Comparison.texts.Equates host ignoreCase (.string x) (.string y) ∧
        (Value.string x).alike (.string y) = true := by
  have hsame : host.sameOf .string (.string y) (.string x) = some (y == x) := rfl
  rw [Comparison.equates_texts, valuesEqual_of_type rfl rfl rfl rfl, hsame, Option.some_inj]
  show _ ↔ _ ∧ (x == y) = true
  simp only [beq_iff_eq, eq_comm (a := y)]
  refine ⟨fun h => ⟨?_, h⟩, fun h => h.2⟩
  rw [h]
  split <;> exact beq_self_eq_true _

/-- A value of a type as the type that a comparison asks for, if it asks for one. -/
def readied (host : Host) (u : Ty) (v : Value) : Option Ty → Value
  | some t => host.carried u t v
  | none => v

theorem Has.written (h : host.Has t v) : v.WrittenAs t := by
  cases t with
  | int | char | single | double | decimal | string | dateTime | timeSpan =>
    have htype := h.1.type_eq rfl nofun
    cases v with
    | missing u =>
      cases htype
      exact absurd h.2 id
    | _ => cases htype <;> first | exact ⟨_, rfl⟩ | exact ⟨_, _, rfl⟩
  | _ => trivial

theorem carried_of_widens (hne : u ≠ t) (h : Typing.widens u t = true) :
    host.carried u t v = v.toNumeric t := by
  have hnull : u ≠ .null := by
    rintro rfl
    exact absurd (Typing.isNumber_of_widens_of_ne h hne) Bool.false_ne_true
  rw [carried, if_neg hne, if_neg hnull, if_pos h]

/-- What is carried to a wider type of numbers is one of it. -/
theorem carried_written (hv : host.Has u v) (h : Typing.widens u t = true) :
    (host.carried u t v).WrittenAs t := by
  by_cases hsame : u = t
  · subst hsame
    rw [carried_self]
    exact hv.written
  · rw [carried_of_widens hsame h]
    have hnumber := Typing.isNumber_of_widens h hsame
    cases t with
    | int k =>
      unfold Value.toNumeric
      dsimp only
      split <;> exact ⟨_, rfl⟩
    | char | single | double => exact ⟨_, rfl⟩
    | decimal => cases v <;> exact ⟨_, _, rfl⟩
    | _ => cases hnumber

/-- What is carried to decimals has storage of its own, unless it is a decimal. -/
theorem carried_decimal (h : host.Has u v) (hu : Typing.widens u .decimal = true) :
    ∃ x m, host.carried u .decimal v = .decimal x m ∧ (v = .decimal x m ∨ m = .fresh) := by
  by_cases hsame : u = .decimal
  · subst hsame
    obtain ⟨x, m, rfl⟩ := h.written
    exact ⟨x, m, carried_self, .inl rfl⟩
  · have htoDecimal : host.carried u .decimal v = v.toDecimal := carried_of_widens hsame hu
    rw [htoDecimal]
    cases v with
    | decimal x m => exact ⟨x, m, rfl, .inl rfl⟩
    | _ => exact ⟨_, _, rfl, .inr rfl⟩

/-- A decimal is sought among decimals, and a time among times. -/
theorem valuesEqual_carried_ordered (ho : Typing.ordered? u t = some o) (hsuits : host.Suits u t)
    (hv : host.Has u v) (hw : host.Has t w) (h : Sought u t v w) :
    host.valuesEqual w (host.carried u t v) = some true ↔
      (Comparison.ordered o).Equates host ignoreCase (host.carried u o v) (host.carried t o w) ∧
        (host.carried u t v).alike w = true := by
  obtain ⟨hmem, ho, hu, ht⟩ := Typing.ordered?_eq_some_iff.1 ho
  obtain rfl : o = t := by
    rcases ho with rfl | h
    · exact hsuits.eq_of_ordered hmem ht
    · exact h
  rw [carried_self]
  -- Times come from nothing else, while decimals come from all whole numbers.
  have hsame : o ≠ .decimal → u = o := by
    intro hdecimal
    by_contra hne
    have hnumber := Typing.isNumber_of_widens hu hne
    have hplain : ∀ o ∈ Builtin.ordered, o.isNumber = true → o = .decimal := by decide
    exact hdecimal (hplain o hmem hnumber)
  simp only [Builtin.ordered, List.mem_cons, List.not_mem_nil, or_false] at hmem
  rcases hmem with rfl | rfl | rfl
  · obtain ⟨y, n, rfl⟩ := hw.written
    obtain ⟨x, m, hx, hown⟩ := carried_decimal hv hu
    rw [hx]
    refine valuesEqual_decimal_iff fun hmark => ?_
    rcases hown with rfl | rfl
    · exact h.storage x m y n rfl rfl hmark
    · cases n <;> cases hmark
  · obtain rfl := hsame nofun
    obtain ⟨x, rfl⟩ := hv.written
    obtain ⟨y, rfl⟩ := hw.written
    rw [carried_self]
    exact valuesEqual_dateTime_iff
  · obtain rfl := hsame nofun
    obtain ⟨x, rfl⟩ := hv.written
    obtain ⟨y, rfl⟩ := hw.written
    rw [carried_self]
    exact valuesEqual_timeSpan_iff

theorem Suits.widens (hsuits : host.Suits u t) (hu : u.isNumeric = true) (ht : t.isNumeric = true) :
    Typing.widens u t = true := by
  rcases hsuits with rfl | ⟨rfl, -⟩ | h | ⟨-, h⟩
  · simp [Typing.widens]
  · cases hu
  · exact h
  · have hface : t.isInterface = true := (Bool.and_eq_true_iff.1 h).1
    cases t with
    | object | face => cases ht
    | _ => cases hface

theorem Has.whole {a : Whole} (h : host.Has a.type v) (hheld : v.isHeld = true) :
    ∃ n, v = a.value n ∧ a.kind.holds n = true := by
  cases a with
  | int k =>
    obtain ⟨n, rfl⟩ := h.written
    exact ⟨n, rfl, hheld⟩
  | char =>
    obtain ⟨n, rfl⟩ := h.written
    exact ⟨n, rfl, hheld⟩

/-- A number is sought among numbers of a type that its own widens to. -/
theorem valuesEqual_carried_numbers (ho : Typing.operandType? u t = some o)
    (hsuits : host.Suits u t) (hv : host.Has u v) (hw : host.Has t w) (h : Sought u t v w) :
    host.valuesEqual w (host.carried u t v) = some true ↔
      (Comparison.numbers (Typing.widened o)).Equates host ignoreCase
        (host.carried u (Typing.widened o) v)
        (host.carried t (Typing.widened o) w) ∧ (host.carried u t v).alike w = true := by
  obtain ⟨hu, ht⟩ := Typing.isNumeric_of_operandType? ho
  have hwidens := hsuits.widens hu ht
  rcases Typing.exists_whole hu ht hwidens with hreal | ⟨a, b, rfl, rfl⟩
  · have hmem : t ∈ [Ty.single, .double] := by
      rcases hreal with rfl | rfl <;> decide
    obtain ⟨htype, hwidened⟩ := Typing.operandType?_real u (Typing.mem_numerics hu) t hmem hwidens
    obtain rfl : t = o := Option.some.inj (htype.symm.trans ho)
    rw [hwidened, carried_self]
    rcases hreal with rfl | rfl
    · obtain ⟨y, rfl⟩ := hw.written
      obtain ⟨x, hx⟩ := carried_written hv hwidens
      have hequal : host.sameOf .single (.single y) (.single x) = some (y == x) := rfl
      rw [hx, Comparison.equates_singles, h.singles rfl, valuesEqual_of_type rfl rfl rfl rfl,
        hequal, Option.some_inj, beq_comm_single]
      exact (and_iff_left rfl).symm
    · obtain ⟨y, rfl⟩ := hw.written
      obtain ⟨x, hx⟩ := carried_written hv hwidens
      have hequal : host.sameOf .double (.double y) (.double x) = some (y == x) := rfl
      rw [hx, Comparison.equates_doubles, valuesEqual_of_type rfl rfl rfl rfl, hequal,
        Option.some_inj, beq_comm_double]
      exact (and_iff_left rfl).symm
  · obtain ⟨n, rfl, hn⟩ := hv.whole h.held.1
    obtain ⟨m, rfl, hm⟩ := hw.whole h.held.2
    rw [Whole.valuesEqual_carried_iff hwidens ho hn hm fun hparted =>
      h.kept a b n hparted rfl rfl rfl,
      Whole.carried_value hwidens hn]
    exact (and_iff_left Whole.alike_value).symm

theorem isNil_zero (h : t.isNullable = true) (hne : t ≠ .null) : (host.zero t).isNil = true := by
  cases t with
  | object | face | pointer | slice | map => rfl
  | null => exact absurd rfl hne
  | _ => cases h

theorem valuesEqual_of_isNil (h : v.isNil = true) : host.valuesEqual w v = some w.isNil := by
  rw [valuesEqual, h, Bool.or_true, if_pos rfl, beq_true]

/-- What has no comparison of its own is sought as it is, or as the missing value of a type. -/
theorem valuesEqual_carried_objects (ho : Typing.ordered? u t = none)
    (hnumbers : Typing.operandType? u t = none) (hsuits : host.Suits u t) (h : Sought u t v w) :
    host.valuesEqual w (host.carried u t v) = some true ↔
      Comparison.objects.Equates host ignoreCase v w ∧ (host.carried u t v).alike w = true := by
  have hkept : host.valuesEqual w v = some true ↔
      Comparison.objects.Equates host ignoreCase v w ∧ v.alike w = true := by
    rw [Comparison.equates_objects, valuesEqual_comm]
    exact ⟨fun h => ⟨h, alike_of_valuesEqual (host.valuesEqual_comm v w ▸ h)⟩, And.left⟩
  by_cases hsame : u = t
  · subst hsame
    rwa [carried_self]
  by_cases hnull : u = .null
  · obtain rfl := h.null hnull
    have hnullable : t.isNullable = true := by
      rcases hsuits with h | ⟨-, h⟩ | h | ⟨h, -⟩
      · exact absurd h hsame
      · exact h
      · exact absurd h (Typing.not_widens_of_incomparable ho hnumbers hsame)
      · exact absurd hnull h
    have hnil : (host.carried u t .nil).isNil = true := by
      rw [carried, if_neg hsame, if_pos hnull]
      exact isNil_zero hnullable (hnull ▸ Ne.symm hsame)
    have halike : (host.carried u t .nil).alike w = true := by
      generalize host.carried u t .nil = z at hnil
      cases z <;> first | rfl | cases hnil
    rw [valuesEqual_of_isNil hnil, halike, Comparison.equates_objects, valuesEqual_comm,
      valuesEqual_of_isNil rfl]
    exact (and_iff_left rfl).symm
  · rw [carried, if_neg hsame, if_neg hnull, if_neg
      (Typing.not_widens_of_incomparable ho hnumbers hsame)]
    exact hkept

end Host

/-- A search finds an item that an operator finds equal, if they agree in what the operator may
overlook. -/
theorem Host.valuesEqual_carried_iff {host : Host} (ignoreCase : Bool) {u t : Ty} {v w : Value}
    {c : Comparison}
    (hc : Typing.comparison? host true u t = some c) (hsuits : host.Suits u t) (hv : host.Has u v)
    (hw : host.Has t w) (h : Sought u t v w) :
    host.valuesEqual w (host.carried u t v) = some true ↔
      c.Equates host ignoreCase (host.readied u v c.operand?) (host.readied t w c.operand?) ∧
        (host.carried u t v).alike w = true := by
  rcases Typing.comparison?_cases hc with ⟨rfl, rfl, rfl⟩ | ⟨o, rfl, ho⟩ | ⟨o, rfl,
    ho⟩ | ⟨rfl, ho, hnumbers⟩
  · obtain ⟨x, rfl⟩ := hv.written
    obtain ⟨y, rfl⟩ := hw.written
    rw [carried_self]
    exact valuesEqual_text_iff
  · exact valuesEqual_carried_ordered ho hsuits hv hw h
  · exact valuesEqual_carried_numbers ho hsuits hv hw h
  · exact valuesEqual_carried_objects ho hnumbers hsuits h

end Formulary
