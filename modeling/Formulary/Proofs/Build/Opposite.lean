import Formulary.Proofs.Build.Numerals
import Formulary.Proofs.Element.Calculation
import Formulary.Proofs.Element.Safety
import Formulary.Proofs.Number.Sign

/-!
# Negated values

What a minus sign makes of a number: of a numeral the one that is read with the sign, of everything
else the value of an operation. Integers are negated in a type of their own, modulo its width, or
exactly where overflow is tested for.
-/

namespace Formulary

namespace Value

/-- A number is the negation of another. Integers are negated modulo the width of the type of the
result, and exactly where overflow is tested for. -/
def Opposes (checked : Bool) : Value → Value → Prop
  | .int k n, .int j m => m = j.wrap (-n) ∧ (checked = true → k.holds n = true → m = -n)
  | .char n, .int j m => m = j.wrap (-n) ∧ (checked = true → IntKind.int.holds n = true → m = -n)
  | .single x, .single y => y = -x
  | .double x, .double y => y = -x
  | .decimal d _, .decimal e _ => e = -d
  | .timeSpan n, .timeSpan m => m = IntKind.long.wrap (-n)
  | _, _ => False

/-- Two values are the same number, perhaps of different types of integers. -/
def SameNumber : Value → Value → Prop
  | .int _ n, .int _ m | .char n, .int _ m | .char n, .char m => n = m
  | .single x, .single y => x = y
  | .double x, .double y => x = y
  | .decimal d _, .decimal e _ => d = e
  | .timeSpan n, .timeSpan m => n = m
  | _, _ => False

/-- Whether the integer within a value is one of its type. -/
def isHeld : Value → Bool
  | .int k n => k.holds n
  | .char n => IntKind.int.holds n
  | .timeSpan n => IntKind.long.holds n
  | _ => true

/-- A number as it is returned where a type is declared: as it is if it has this type. -/
def returned (v : Value) (t : Ty) : Value := if v.type? = some t then v else v.returnedAs t

inductive Negation (checked : Bool) : Value → Value → Prop
  | int {k j : IntKind} {n : Int} (type : Typing.negateType? (.int k) = some (.int j))
    (exact : checked = true → k.holds n = true → j.wrap (-n) = -n) :
    Negation checked (.int k n) (.int j (j.wrap (-n)))
  | char {n : Int} (exact : checked = true → IntKind.int.holds n = true →
      IntKind.int.wrap (-n) = -n) :
    Negation checked (.char n) (.int .int (IntKind.int.wrap (-n)))
  | single (x : Float32) : Negation checked (.single x) (.single (-x))
  | double (x : Float) : Negation checked (.double x) (.double (-x))
  | decimal (d : Decimal) (mark : Mark) : Negation checked (.decimal d mark) (.ofDecimal (-d))
  | timeSpan (n : Int) : Negation checked (.timeSpan n) (.timeSpan (IntKind.long.wrap (-n)))

variable {checked : Bool} {a b c : Value}

theorem Negation.opposes (h : Negation checked a b) : a.Opposes checked b := by
  cases h with
  | int type exact => exact ⟨rfl, exact⟩
  | char exact => exact ⟨rfl, exact⟩
  | _ => rfl

end Value

/-- Whether the values of a type are of this very type: it is no interface, and not the type of
null. -/
def Ty.isProper (t : Ty) : Bool := !t.isInterface && t != .null

theorem Host.Has.type_of_isProper {host : Host} {t : Ty} {v : Value} (h : host.Has t v)
    (ht : t.isProper = true) :
    v.type? = some t := by
  simp only [Ty.isProper, Bool.and_eq_true, Bool.not_eq_true', bne_iff_ne] at ht
  exact h.1.type_eq ht.1 ht.2

namespace Typing

theorem isProper_of_negateType? {t u : Ty} (h : negateType? t = some u) : t.isProper = true ∧
    u.isProper = true := by
  unfold negateType? at h
  split at h <;> cases h <;> exact ⟨rfl, rfl⟩

/-- A type in which integers are negated is signed, and wide enough for them. -/
theorem negateType?_int {k j : IntKind} (h : negateType? (.int k) = some (.int j)) :
    (j = .int ∨ j = .long) ∧ ∀ n, k.holds n = true → j.holds n = true := by
  have hrange : (j = .int ∨ j = .long) ∧ j.low ≤ k.low ∧ k.high ≤ j.high := by
    revert h
    cases k <;> cases j <;> decide
  refine ⟨hrange.1, fun n hn => ?_⟩
  rw [IntKind.holds_iff] at hn ⊢
  omega

end Typing

namespace IntKind

variable {j : IntKind} {n : Int}

/-- Unless a number is the least one, its negation is exact. -/
theorem wrap_neg_of_not_least (hj : j.unsigned = false) (hn : j.holds n = true)
    (h : ¬j.isLeast n = true) :
    j.wrap (-n) = -n := by
  rw [isLeast_iff hj hn] at h
  have hsigned := low_of_signed hj
  refine wrap_of_holds ?_
  rw [holds_iff] at hn ⊢
  omega

end IntKind

/-- Negated twice, a number is the same again. -/
theorem Value.Negation.twice {checked : Bool} {a b c : Value} (h : a.Negation checked b)
    (h' : b.Negation checked c)
    (hheld : a.isHeld = true) : a.SameNumber c := by
  have hwrap : ∀ {j : IntKind} {n : Int}, (j = .int ∨ j = .long) → j.holds n = true →
      n = j.wrap (-(j.wrap (-n))) := by
    intro j n hj hn
    rw [IntKind.wrap_neg_wrap, Int.neg_neg, IntKind.wrap_of_holds hn]
  cases h with
  | @int k j n type =>
    obtain ⟨hj, hwide⟩ := Typing.negateType?_int type
    cases h' with
    | int type' =>
      rcases hj with rfl | rfl <;> cases type'
      · exact hwrap (.inl rfl) (hwide n hheld)
      · exact hwrap (.inr rfl) (hwide n hheld)
  | char =>
    cases h' with
    | int type =>
      cases type
      exact hwrap (.inl rfl) hheld
  | single x =>
    cases h'
    exact (neg_neg_single x).symm
  | double x =>
    cases h'
    exact (neg_neg_double x).symm
  | decimal d mark =>
    cases h'
    show d = - -d
    obtain ⟨coefficient, exponent⟩ := d
    exact congrArg (Decimal.mk · exponent) (Int.neg_neg coefficient).symm
  | timeSpan n =>
    cases h'
    exact hwrap (.inr rfl) hheld

namespace Build

section Numerals

variable {o : Options} {image : Text} {checked : Bool}

theorem opposes_of_integerValue? {asDoubles : Bool} {n : Nat} {suffix : String} {v v' : Value}
    (h : integerValue? asDoubles false n suffix = some v)
    (h' : integerValue? asDoubles true n suffix = some v') :
    v.Opposes checked v' := by
  have hfirst : ∀ {kinds : List IntKind} {m : Int} {v : Value}, firstFitting kinds m = some v →
      ∃ k : IntKind, v = .int k m ∧ k.holds m = true := by
    intro kinds m v h
    obtain ⟨k, hk, rfl⟩ := Option.map_eq_some_iff.1 h
    exact ⟨k, rfl, by simpa using List.find?_some hk⟩
  cases asDoubles with
  | true =>
    unfold integerValue? at h h'
    split at h
    · cases h
    · rename_i hholds
      rw [if_neg hholds] at h'
      cases h
      cases h'
      rfl
  | false =>
    obtain ⟨k, rfl, hk⟩ := integerValue?_held h
    have hnegative : ∃ j : IntKind, v' = .int j (-n) ∧ j.holds (-n) = true := by
      unfold integerValue? at h'
      split at h'
      · cases h'
      · simp only [Bool.false_eq_true, reduceIte] at h'
        split at h'
        · exact hfirst h'
        · exact hfirst h'
        · cases h'
    obtain ⟨j, rfl, hj⟩ := hnegative
    exact ⟨(IntKind.wrap_of_holds hj).symm, fun _ _ => rfl⟩

theorem realBody_negated (o : Lexical.Options) (image : Text) :
    (realBody o image true).1.byteChars = '-' :: (realBody o image false).1.byteChars ∧
      (realBody o image true).2 = (realBody o image false).2 := ⟨rfl, rfl⟩

theorem opposes_of_realValue {v v' : Value} (h : realValue o image false = .ok v)
    (h' : realValue o image true = .ok v') : v.Opposes checked v' := by
  obtain ⟨hbody, hsuffix⟩ := realBody_negated o.lexical image
  unfold realValue at h h'
  simp only [hbody, hsuffix] at h h'
  cases hread : Number.Numeral.read? ('-' :: (realBody o.lexical image false).1.byteChars) with
  | none =>
    rw [hread] at h'
    split at h' <;> simp_all [badFormat, refusedAt]
  | some n =>
    obtain ⟨hnegative, hplain⟩ := Number.Numeral.read?_minus hread
    obtain ⟨negative, coefficient, exponent⟩ := n
    cases hnegative
    rw [hread] at h'
    rw [hplain] at h
    have hdouble : ∀ {x y : Float}, (⟨false, coefficient, exponent⟩ : Number.Numeral).double? =
      some x →
        (⟨true, coefficient, exponent⟩ : Number.Numeral).double? = some y → y = -x := by
      intro x y hx hy
      obtain ⟨z, hz, rfl⟩ := Number.Numeral.double?_negative (n := ⟨true, coefficient, exponent⟩) hy
      cases hx.symm.trans hz
      rfl
    generalize realType o (realBody o.lexical image false).2 = t at h h'
    cases t with
    | decimal =>
      cases h
      cases h'
      rfl
    | single =>
      simp only at h h'
      split at h
      · rename_i x hx
        split at h'
        · rename_i y hy
          cases h
          cases h'
          obtain ⟨z, hz, rfl⟩ := Number.Numeral.single?_negative
            (n := ⟨true, coefficient, exponent⟩) hy
          cases hx.symm.trans hz
          rfl
        · cases h'
      · cases h
    | _ =>
      simp only at h h'
      split at h
      · rename_i x hx
        split at h'
        · rename_i y hy
          cases h
          cases h'
          exact hdouble hx hy
        · cases h'
      · cases h

/-- The constant of a numeral with a minus sign is the negation of the one without it. -/
theorem opposes_of_number {kind : Lexical.Kind} {t t' : Ty} {v v' : Value}
    {n n' : Option NumeralImage} (h : number o kind image false = .ok (.constant t v n))
    (h' : number o kind image true = .ok (.constant t' v' n')) :
    v.Opposes checked v' := by
  simp only [number] at h h'
  split at h
  · rename_i hreal
    rw [if_pos hreal] at h'
    obtain ⟨u, hu, h⟩ := bind_eq_ok.1 h
    obtain ⟨u', hu', h'⟩ := bind_eq_ok.1 h'
    cases h
    cases h'
    exact opposes_of_realValue hu hu'
  · rename_i hreal
    rw [if_neg hreal] at h'
    split at h
    · rename_i hvalue
      split at h'
      · rename_i hvalue'
        cases h
        cases h'
        exact opposes_of_integerValue? hvalue hvalue'
      · cases h'
    · cases h

end Numerals

section Operation

variable {s : Scope} {x e : Element} {a v : Value} {t : Ty} {env : Environment}
  {last : Option Value}
  {tally tally' tally'' : Tally}

/-- Without conversions of the host, a value is returned as a type is declared. -/
theorem returned_of_implicit (hops : s.operators.implicit = []) (h : s.implicit x t = .ok e)
    (hproper : x.type.isProper = true) (hhas : s.host.Has x.type a)
    (hx : (x.eval env last).run tally = (.ok a, tally'))
    (he : (e.eval env last).run tally = (.ok v, tally'')) : v = a.returned t ∧
    tally'' = tally' := by
  have htype := hhas.type_of_isProper hproper
  unfold Scope.implicit at h
  split at h
  · rename_i heq
    obtain rfl : x.type = t := by simpa using heq
    cases h
    rw [hx] at he
    cases he
    exact ⟨by rw [Value.returned, if_pos htype], rfl⟩
  · rename_i hne
    have hother : ¬a.type? = some t := by
      rw [htype, Option.some_inj]
      simpa using hne
    split at h
    · rename_i how hhow
      cases h
      rw [Element.eval] at he
      obtain ⟨b, u, hb, he⟩ := Machine.run_bind_eq_ok.1 he
      rw [hx] at hb
      cases hb
      have huser : s.operators.implicit? x.type t = none := by rw [Operators.implicit?, hops]; rfl
      unfold Typing.implicit? at hhow
      rw [huser] at hhow
      have hnull : ¬(x.type == .null) = true := fun hnull => by
        rw [eq_of_beq hnull] at hproper
        cases hproper
      rw [if_neg hne, if_neg hnull] at hhow
      simp only at hhow
      rw [Value.returned, if_neg hother]
      split at hhow
      · rename_i hwidens
        cases hhow
        rw [Value.returnedAs, if_pos (Typing.isNumber_of_widens hwidens (by simpa using hne))]
        simp only [Conversion.apply, convertNumeric] at he
        split at he
        · split at he
          · cases he
            exact ⟨rfl, rfl⟩
          · cases he
        · split at he
          · cases he
            exact ⟨rfl, rfl⟩
          · cases he
        · cases he
          exact ⟨rfl, rfl⟩
      · split at hhow
        · rename_i himplements
          cases hhow
          have hnumber : t.isNumber = false := by
            rw [Host.implements, Bool.and_eq_true] at himplements
            cases t <;> first | rfl | cases himplements.1
          rw [Value.returnedAs, if_neg (by rw [hnumber]; decide)]
          cases he
          exact ⟨rfl, rfl⟩
        · cases hhow
    · cases h

/-- An operation on one value, called with a value of its type. -/
theorem invoke_of_type {host : Host} {f : Function} (hparams : f.signature.params = [t])
    (htype : a.type? = some t) :
    host.invoke f [a] = f.body [a] := by
  simp [Host.invoke, hparams, htype, Host.accepts, Host.suits]

/-- The built-in operations of decimals and time spans take an operand as it is. -/
theorem overloadedUnary?_negate (hops : s.operators = {})
    (h : overloadedUnary? s .negate x = .ok (some e)) :
    ∃ f, e = .unary (.overload .negate f) x.type x ∧ f.signature.params = [x.type] ∧
      ((x.type = .decimal ∧ ∀ v, f.body [v] = pure (.ofDecimal (-Standard.decimalOf v))) ∨
        x.type = .timeSpan ∧ ∀ v, f.body [v] =
          pure (.timeSpan (IntKind.long.wrap (-Standard.spanOf v)))) := by
  obtain ⟨found, hfound, h⟩ := bind_eq_ok.1 h
  cases found with
  | none => cases h
  | some f =>
    have hbuiltin : f ∈ Builtin.operators.unaryOn .negate x.type := by
      rcases anyOverload?_mem hfound with hhost | hbuiltin
      · have hmem := mem_unary_of_overload? hhost
        rw [hops] at hmem
        cases hmem
      · exact overload?_mem hbuiltin
    obtain ⟨⟨op, g⟩, hmem, rfl⟩ := List.mem_map.1 hbuiltin
    obtain ⟨hmem, hfits⟩ := List.mem_filter.1 hmem
    have hunary : ∀ {p : Ty}, g.signature.params = [p] → g.signature.results = [p] → p = x.type →
        e = .unary (.overload .negate g) x.type x := by
      rintro p hparams hresults rfl
      simp only [hparams, hresults, Scope.implicit, BEq.rfl, if_true] at h
      obtain ⟨y, hy, h⟩ := bind_eq_ok.1 h
      cases hy
      cases h
      rfl
    simp only [Builtin.operators, List.mem_cons, List.not_mem_nil, or_false, Prod.mk.injEq] at hmem
    rcases hmem with ⟨rfl, rfl⟩ | ⟨rfl, rfl⟩
    · have hdecimal : Ty.decimal = x.type := by simpa using hfits
      exact ⟨_, hunary rfl rfl hdecimal, congrArg (fun t => [t]) hdecimal,
        .inl ⟨hdecimal.symm, fun _ => rfl⟩⟩
    · have hspan : Ty.timeSpan = x.type := by simpa using hfits
      exact ⟨_, hunary rfl rfl hspan, congrArg (fun t => [t]) hspan,
        .inr ⟨hspan.symm, fun _ => rfl⟩⟩

/-- What the built-in operations make of a decimal and of a time span. -/
theorem negation_of_overloaded (hops : s.operators = {}) (hhas : s.host.Has x.type a)
    (h : overloadedUnary? s .negate x = .ok (some e))
    (hx : (x.eval env last).run tally = (.ok a, tally'))
    (he : (e.eval env last).run tally = (.ok v, tally'')) : a.Negation s.options.checked v ∧
    tally'' = tally' := by
  obtain ⟨f, rfl, hparams, hbody⟩ := overloadedUnary?_negate hops h
  obtain ⟨b, u, hb, he⟩ := Machine.run_bind_eq_ok.1 he
  rw [hx] at hb
  cases hb
  rw [Unary.apply] at he
  rcases hbody with ⟨ht, hbody⟩ | ⟨ht, hbody⟩
  · rw [ht] at hhas hparams
    have htype := hhas.1.type_eq rfl (by decide)
    rw [invoke_of_type hparams htype, hbody] at he
    cases a with
    | decimal d mark =>
      cases he
      exact ⟨.decimal d mark, rfl⟩
    | missing =>
      cases htype
      cases hhas.2
    | _ => cases htype
  · rw [ht] at hhas hparams
    have htype := hhas.1.type_eq rfl (by decide)
    rw [invoke_of_type hparams htype, hbody] at he
    cases a with
    | timeSpan n =>
      cases he
      exact ⟨.timeSpan n, rfl⟩
    | missing =>
      cases htype
      cases hhas.2
    | _ => cases htype

/-- An integer as an operand in a type it is negated in. -/
theorem returned_operand {j : IntKind} {n : Int} (hj : j = .int ∨ j = .long)
    (ha : (∃ k, a = .int k n) ∨ a = .char n) :
    ∃ m, a.returned (.int j) = .int j m ∧ j.wrap (-m) = j.wrap (-n) ∧
      (j.holds n = true → m = n) := by
  have hconverted : a.toNumeric (.int j) = .int j (j.wrap n) := by
    rw [← IntKind.wrap_long_wrap]
    rcases hj with rfl | rfl <;> rcases ha with ⟨k, rfl⟩ | rfl <;> rfl
  unfold Value.returned
  split
  · rename_i htype
    rcases ha with ⟨k, rfl⟩ | rfl
    · cases htype
      exact ⟨n, rfl, rfl, fun _ => rfl⟩
    · cases htype
  · exact ⟨_, hconverted, j.wrap_neg_wrap n, IntKind.wrap_of_holds⟩

/-- What the operation of a type makes of an integer. -/
theorem negation_of_settled {j : IntKind} {m n : Int} {checked : Bool} (hj : j = .int ∨ j = .long)
    (hwrap : j.wrap (-m) = j.wrap (-n)) (hheld : j.holds n = true → m = n)
    (h : (settle j (intNegation j checked m)).run tally = (.ok v, tally')) :
    v = .int j (j.wrap (-n)) ∧ (checked = true → j.holds n = true → j.wrap (-n) = -n) ∧
      tally' = tally := by
  unfold intNegation at h
  split at h
  · cases h
  · rename_i hleast
    obtain ⟨rfl, rfl⟩ := Machine.run_pure_eq_ok.1 h
    refine ⟨by rw [hwrap], fun hchecked hn => ?_, rfl⟩
    have hsigned : j.unsigned = false := by rcases hj with rfl | rfl <;> rfl
    refine IntKind.wrap_neg_of_not_least hsigned hn ?_
    rw [hheld hn, hchecked, Bool.true_and] at hleast
    exact hleast

/-- What the operation of a type makes of a number. -/
theorem negation_of_operation {checked : Bool} {host : Host}
    (ht : Typing.negateType? x.type = some t)
    (htype : a.type? = some x.type) (hgenuine : a.Genuine s.host)
    (h : ((Unary.negate t checked).apply host (a.returned t)).run tally = (.ok v, tally')) :
    a.Negation checked v ∧ tally' = tally := by
  generalize x.type = u at ht htype
  cases a with
  | int k n =>
    cases htype
    obtain ⟨j, rfl⟩ : ∃ j, t = .int j := by revert ht; cases k <;> rintro ⟨⟩ <;> exact ⟨_, rfl⟩
    obtain ⟨hj, hwide⟩ := Typing.negateType?_int ht
    obtain ⟨m, hm, hwrap, hheld⟩ := returned_operand hj
      (.inl ⟨k, rfl⟩ : (∃ k', Value.int k n = .int k' n) ∨ _)
    rw [hm] at h
    simp only [Unary.apply, BEq.rfl, if_true] at h
    obtain ⟨rfl, hexact, rfl⟩ := negation_of_settled hj hwrap hheld h
    exact ⟨.int ht fun hchecked hn => hexact hchecked (hwide n hn), rfl⟩
  | char n =>
    cases htype
    cases ht
    obtain ⟨m, hm, hwrap, hheld⟩ := returned_operand (.inl rfl)
      (.inr rfl : (∃ k, Value.char n = .int k n) ∨ _)
    rw [hm] at h
    simp only [Unary.apply, BEq.rfl, if_true] at h
    obtain ⟨rfl, hexact, rfl⟩ := negation_of_settled (.inl rfl) hwrap hheld h
    exact ⟨.char hexact, rfl⟩
  | single x =>
    cases htype
    cases ht
    cases h
    exact ⟨.single x, rfl⟩
  | double x =>
    cases htype
    cases ht
    cases h
    exact ⟨.double x, rfl⟩
  | missing u' =>
    cases htype
    cases u with
    | pointer | slice | map => cases ht
    | _ => cases hgenuine
  | nil => cases htype
  | _ =>
    cases htype
    cases ht

/-- A minus sign before anything but a numeral negates its value. -/
theorem negation_of_opposite (hops : s.operators = {}) (hhas : s.host.Has x.type a)
    (h : opposite s x = .ok e) (hx : (x.eval env last).run tally = (.ok a, tally'))
    (he : (e.eval env last).run tally = (.ok v, tally'')) : a.Negation s.options.checked v ∧
    tally'' = tally' := by
  obtain ⟨found, hfound, h⟩ := bind_eq_ok.1 h
  cases found with
  | some u =>
    cases h
    exact negation_of_overloaded hops hhas hfound hx he
  | none =>
    simp only at h
    split at h
    · cases h
    · rename_i t ht
      obtain ⟨y, hy, h⟩ := bind_eq_ok.1 h
      cases h
      obtain ⟨b, u, hb, he⟩ := Machine.run_bind_eq_ok.1 he
      have hproper := (Typing.isProper_of_negateType? ht).1
      obtain ⟨rfl, rfl⟩ := returned_of_implicit (by rw [hops]) hy hproper hhas hx hb
      exact negation_of_operation ht (hhas.type_of_isProper hproper) hhas.2 he

theorem opposite_isProper (hops : s.operators = {}) (h : opposite s x = .ok e) :
    x.type.isProper = true ∧ e.type.isProper = true := by
  obtain ⟨found, hfound, h⟩ := bind_eq_ok.1 h
  cases found with
  | some u =>
    cases h
    obtain ⟨f, rfl, -, ⟨ht, -⟩ | ⟨ht, -⟩⟩ := overloadedUnary?_negate hops hfound <;>
      exact ⟨by rw [ht]; rfl, by rw [Element.type, ht]; rfl⟩
  | none =>
    simp only at h
    split at h
    · cases h
    · rename_i t ht
      obtain ⟨y, -, h⟩ := bind_eq_ok.1 h
      cases h
      exact Typing.isProper_of_negateType? ht

end Operation

section Sign

variable {s : Scope} {x e : Element} {a v : Value} {env : Environment} {last : Option Value}
  {tally tally' tally'' : Tally}

theorem integerValue?_isProper {asDoubles negated : Bool} {n : Nat} {suffix : String} {v : Value}
    (h : integerValue? asDoubles negated n suffix = some v) : ∃ t, v.type? = some t ∧
    t.isProper = true := by
  have hfirst : ∀ {kinds : List IntKind} {m : Int}, firstFitting kinds m = some v →
      ∃ t, v.type? = some t ∧ t.isProper = true := by
    intro kinds m h
    obtain ⟨k, -, rfl⟩ := Option.map_eq_some_iff.1 h
    exact ⟨.int k, rfl, rfl⟩
  unfold integerValue? at h
  repeat' split at h
  all_goals first
    | exact hfirst h
    | cases h
  all_goals exact ⟨.double, rfl, rfl⟩

theorem realValue_isProper {o : Options} {image : Text} {negated : Bool} {v : Value}
    (h : realValue o image negated = .ok v) : ∃ t, v.type? = some t ∧ t.isProper = true := by
  unfold realValue at h
  simp only at h
  repeat' split at h
  all_goals cases h
  all_goals first
    | exact ⟨.decimal, rfl, rfl⟩
    | exact ⟨.single, rfl, rfl⟩
    | exact ⟨.double, rfl, rfl⟩

theorem number_isProper {o : Options} {kind : Lexical.Kind} {image : Text} {negated : Bool}
    (h : number o kind image negated = .ok e) : e.type.isProper = true := by
  have hconstant : ∀ {v : Value}, (∃ t, v.type? = some t ∧ t.isProper = true) →
      (v.type?.getD .null).isProper = true := by
    rintro v ⟨t, ht, hproper⟩
    rwa [ht]
  simp only [number] at h
  split at h
  · obtain ⟨v, hv, h⟩ := bind_eq_ok.1 h
    cases h
    exact hconstant (realValue_isProper hv)
  · split at h
    · rename_i hvalue
      cases h
      exact hconstant (integerValue?_isProper hvalue)
    · cases h

/-- A numeral that is read with a minus sign. -/
def Signed (o : Options) (e : Element) : Prop :=
  ∃ n, e.numeral? = some n ∧ number o n.kind n.image true = .ok e

theorem minus_isProper (hops : s.operators = {}) (hspelled : Spelled s.options x)
    (h : minus s x = .ok e) :
    x.type.isProper = true ∧ e.type.isProper = true := by
  rw [minus_eq] at h
  split at h
  · rename_i n hn
    obtain ⟨negated, hx⟩ := hspelled n hn
    exact ⟨number_isProper hx, number_isProper h⟩
  · exact opposite_isProper hops h

/-- A minus sign negates the value of an element, except that it makes nothing of a numeral that has
a sign. -/
theorem opposes_of_minus (hops : s.operators = {}) (hspelled : Spelled s.options x)
    (hhas : s.host.Has x.type a)
    (h : minus s x = .ok e) (hx : (x.eval env last).run tally = (.ok a, tally'))
    (he : (e.eval env last).run tally = (.ok v, tally'')) :
    (Signed s.options x → v = a) ∧ (¬Signed s.options x → a.Opposes s.options.checked v) := by
  rw [minus_eq] at h
  split at h
  · rename_i n hn
    refine ⟨?_, fun hsigned => ?_⟩
    · rintro ⟨m, hm, hread⟩
      cases hn.symm.trans hm
      cases h.symm.trans hread
      rw [hx] at he
      cases he
      rfl
    · obtain ⟨negated, hread⟩ := hspelled n hn
      cases negated with
      | true => exact absurd ⟨n, hn, hread⟩ hsigned
      | false =>
        obtain ⟨a', rfl⟩ := exists_of_number hread
        obtain ⟨v', rfl⟩ := exists_of_number h
        cases hx
        cases he
        exact opposes_of_number hread h
  · rename_i hn
    refine ⟨?_, fun _ => (negation_of_opposite hops hhas h hx he).1.opposes⟩
    rintro ⟨m, hm, -⟩
    cases hn.symm.trans hm

end Sign

end Build

end Formulary
