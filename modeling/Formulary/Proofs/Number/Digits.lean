import Formulary.Number.Literal

/-!
# Numerals from their parts

A numeral is read from its parts: the digits before and behind the point give its coefficient, and
the digits behind the point and the exponent its scale (`Numeral.read?_pointed`,
`Numeral.read?_plain`). What follows the digits and is no exponent makes it unreadable
(`Numeral.read?_eq_none`).
-/

namespace Formulary.Number

def AllDigits (cs : List Char) : Prop := ∀ c ∈ cs, c.isDigit = true

instance (cs : List Char) : Decidable (AllDigits cs) :=
  decidable_of_iff (cs.all Char.isDigit = true) List.all_eq_true

theorem toNat_digit {c : Char} (h : c.isDigit = true) : 48 ≤ c.toNat ∧ c.toNat ≤ 57 := by
  simp only [Char.isDigit, Bool.and_eq_true, decide_eq_true_eq, ge_iff_le,
    UInt32.le_iff_toNat_le] at h
  exact h

structure Power where
  letter : Char
  sign : Option Char
  digits : List Char
  deriving DecidableEq, Repr

namespace Power

def chars (p : Power) : List Char := p.letter :: (p.sign.toList ++ p.digits)

def value (p : Power) : Int :=
  if p.sign = some '-' then -(digitsValue p.digits : Int) else digitsValue p.digits

structure Proper (p : Power) : Prop where
  letter : p.letter = 'e' ∨ p.letter = 'E'
  sign : ∀ c ∈ p.sign, c = '+' ∨ c = '-'
  digits : AllDigits p.digits
  filled : p.digits ≠ []

end Power

section Parts

variable {cs ds rest : List Char}

theorem AllDigits.append (h : AllDigits cs) (h' : AllDigits ds) : AllDigits (cs ++ ds) := by
  intro c hc
  rcases List.mem_append.1 hc with hc | hc
  · exact h c hc
  · exact h' c hc

/-- The digits at the front end where something else starts. -/
theorem spanDigits_append (h : AllDigits ds) (hrest : ∀ c ∈ rest.head?, c.isDigit = false) :
    spanDigits (ds ++ rest) = (ds, rest) := by
  have htake : rest.takeWhile Char.isDigit = [] := by
    cases rest with
    | nil => rfl
    | cons c rest => exact List.takeWhile_cons_of_neg (by simp [hrest c rfl])
  have hdrop : rest.dropWhile Char.isDigit = rest := by
    cases rest with
    | nil => rfl
    | cons c rest => exact List.dropWhile_cons_of_neg (by simp [hrest c rfl])
  rw [spanDigits, List.takeWhile_append_of_pos h, List.dropWhile_append_of_pos h, htake, hdrop,
    List.append_nil]

/-- What starts with no sign has none. -/
theorem spanSign_of_head (h : ∀ c ∈ cs.head?, c ≠ '-' ∧ c ≠ '+') : spanSign cs = (false, cs) := by
  cases cs with
  | nil => rfl
  | cons c cs =>
    obtain ⟨hminus, hplus⟩ := h c rfl
    unfold spanSign
    split
    · rename_i heq
      exact absurd (List.cons.inj heq).1 hminus
    · rename_i heq
      exact absurd (List.cons.inj heq).1 hplus
    · rfl

theorem isDigit_sign {c : Char} (h : c.isDigit = true) : c ≠ '-' ∧ c ≠ '+' ∧ c ≠ '.' := by
  refine ⟨?_, ?_, ?_⟩
  all_goals
    rintro rfl
    exact absurd h (by decide)

/-- The sign in front of digits or a point. -/
theorem spanSign_signed (negated : Bool) (h : ∀ c ∈ cs.head?, c ≠ '-' ∧ c ≠ '+') :
    spanSign ((if negated then ['-'] else []) ++ cs) = (negated, cs) := by
  cases negated with
  | true => rfl
  | false => exact spanSign_of_head h

theorem readExponent?_power {p : Power} (h : p.Proper) : readExponent? p.chars = some p.value := by
  obtain ⟨letter, sign, digits⟩ := p
  obtain ⟨hletter, hsign, hdigits, hne⟩ := h
  have hspan : spanSign (sign.toList ++ digits) = (decide (sign = some '-'), digits) := by
    cases sign with
    | none =>
      refine spanSign_of_head fun c hc => ?_
      obtain ⟨hminus, hplus, -⟩ := isDigit_sign (hdigits c (List.mem_of_mem_head? hc))
      exact ⟨hminus, hplus⟩
    | some c =>
      rcases hsign c rfl with rfl | rfl
      · rfl
      · rfl
  have hletter : (letter == 'e' || letter == 'E') = true := by simpa using hletter
  have hvalid : (digits.isEmpty || !digits.all Char.isDigit) = false := by
    simp only [Bool.or_eq_false_iff, List.isEmpty_eq_false_iff, Bool.not_eq_false',
      List.all_eq_true]
    exact ⟨hne, hdigits⟩
  simp only [Power.chars, readExponent?, hletter, hspan, hvalid, Power.value, if_true,
    Bool.false_eq_true, if_false, decide_eq_true_eq]

/-- The characters of an exponent or none. -/
def powerChars (power : Option Power) : List Char := (power.map Power.chars).getD []

/-- The number of an exponent, which is zero where none is written. -/
def powerValue (power : Option Power) : Int := (power.map Power.value).getD 0

variable {power : Option Power}

theorem readExponent?_powerChars (h : ∀ p ∈ power, p.Proper) :
    readExponent? (powerChars power) = some (powerValue power) := by
  cases power with
  | none => rfl
  | some p => exact readExponent?_power (h p rfl)

theorem head_powerChars (h : ∀ p ∈ power, p.Proper) :
    ∀ c ∈ (powerChars power).head?, c.isDigit = false ∧ c ≠ '.' ∧ c ≠ '-' ∧ c ≠ '+' := by
  intro c hc
  cases power with
  | none => cases hc
  | some p =>
    cases hc
    rcases (h p rfl).letter with hletter | hletter
    · simp only [hletter]
      decide
    · simp only [hletter]
      decide

end Parts

section Counting

/-- The digits of a number are read as the number. -/
theorem digitsValue_toDigits (n : Nat) : digitsValue (Nat.toDigits 10 n) = n := by
  have hfold : ∀ cs init, cs.foldl (fun n c => n * 10 + digitValue c) init =
      Nat.ofDigitChars 10 cs init := by
    intro cs init
    simp only [Nat.ofDigitChars, Nat.mul_comm, digitValue]
  rw [digitsValue, hfold, Nat.ofDigitChars_toDigits (by decide) (by decide)]

theorem allDigits_toDigits (n : Nat) : AllDigits (Nat.toDigits 10 n) :=
  fun _ hc => Nat.isDigit_of_mem_toDigits (by decide) (by decide) hc

end Counting

section Read

variable (negated : Bool) {whole part : List Char} {power : Option Power}

/-- A numeral with a point. -/
theorem Numeral.read?_pointed (hwhole : AllDigits whole) (hpart : AllDigits part) (hne : part ≠ [])
    (hpower : ∀ p ∈ power, p.Proper) :
    Numeral.read? ((if negated then ['-'] else []) ++
      (whole ++ '.' :: (part ++ powerChars power))) =
      some ⟨negated, digitsValue (whole ++ part), powerValue power - part.length⟩ := by
  have hsign : ∀ c ∈ (whole ++ '.' :: (part ++ powerChars power)).head?, c ≠ '-' ∧ c ≠ '+' := by
    cases whole with
    | nil =>
      intro c hc
      cases hc
      decide
    | cons d whole =>
      intro c hc
      cases hc
      obtain ⟨hminus, hplus, -⟩ := isDigit_sign (hwhole d List.mem_cons_self)
      exact ⟨hminus, hplus⟩
  have hspan : spanDigits (whole ++ '.' :: (part ++ powerChars power)) =
      (whole, '.' :: (part ++ powerChars power)) :=
    spanDigits_append hwhole (by simp)
  have hspan' := spanDigits_append hpart fun c hc => (head_powerChars hpower c hc).1
  have hempty : (whole.isEmpty && part.isEmpty) = false := by simp [hne]
  simp only [Numeral.read?, spanSign_signed negated hsign, hspan, hspan', hempty,
    Bool.false_eq_true, if_false, readExponent?_powerChars hpower, Option.map_some]

/-- Behind the digits of a numeral without a point comes its exponent. -/
theorem Numeral.read?_plain {rest : List Char} (hwhole : AllDigits whole) (hne : whole ≠ [])
    (hrest : ∀ c ∈ rest.head?, c.isDigit = false ∧ c ≠ '.') :
    Numeral.read? ((if negated then ['-'] else []) ++ (whole ++ rest)) =
      (readExponent? rest).map fun e => ⟨negated, digitsValue whole, e⟩ := by
  have hsign : ∀ c ∈ (whole ++ rest).head?, c ≠ '-' ∧ c ≠ '+' := by
    obtain ⟨d, whole, rfl⟩ := List.exists_cons_of_ne_nil hne
    intro c hc
    cases hc
    obtain ⟨hminus, hplus, -⟩ := isDigit_sign (hwhole d List.mem_cons_self)
    exact ⟨hminus, hplus⟩
  have hspan := spanDigits_append hwhole fun c hc => (hrest c hc).1
  simp only [Numeral.read?, spanSign_signed negated hsign, hspan]
  split
  · exact absurd rfl (hrest '.' rfl).2
  · simp [hne]

/-- What follows the digits and is neither a point nor an exponent makes a numeral unreadable. -/
theorem Numeral.read?_eq_none {rest : List Char} (hwhole : AllDigits whole)
    (hrest : ∀ c ∈ rest.head?, c.isDigit = false ∧ c ≠ '.' ∧ c ≠ '-' ∧ c ≠ '+')
    (hnone : readExponent? rest = none) :
    Numeral.read? ((if negated then ['-'] else []) ++ (whole ++ rest)) = none := by
  have hsign : ∀ c ∈ (whole ++ rest).head?, c ≠ '-' ∧ c ≠ '+' := by
    cases whole with
    | nil => exact fun c hc => (hrest c hc).2.2
    | cons d whole =>
      intro c hc
      cases hc
      obtain ⟨hminus, hplus, -⟩ := isDigit_sign (hwhole d List.mem_cons_self)
      exact ⟨hminus, hplus⟩
  have hspan := spanDigits_append hwhole fun c hc => (hrest c hc).1
  simp only [Numeral.read?, spanSign_signed negated hsign, hspan]
  split
  · exact absurd rfl (hrest '.' rfl).2.1
  · simp [hnone]

end Read

end Formulary.Number
