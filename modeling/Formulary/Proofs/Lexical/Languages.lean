import Mathlib.Tactic.Abel
import Formulary.Proofs.Lexical.Munch
import Formulary.Proofs.Lexical.Parted

/-!
# The languages of the scanners

The documented shape of every literal as a regular language, with letters in either case, and the
proof that each scanner takes the longest match of its language. The scanners are put together as
the languages are; where the two differ, in the suffixes and in the order in which the forms of a
real are tried, the laws of a semiring turn one into the other. Only the optional days of a time
span look further ahead than one character: the digits of the days and those of the hours are told
apart by the point or the colon behind them.
-/

namespace Formulary

open Text (Glyph isAsciiDigit)
open Computability

namespace Lexical

/-- A character that makes an escape with a backslash before it. -/
def shortEscape (c : Nat) : Bool := ("\\\"'trn".toList.map Char.toNat).contains c

def isPlain (quote : Char) (c : Nat) : Bool := c != 0x5C && c != quote.toNat && !isLineEnd c

namespace Words

def digit : Language Nat := oneOf isAsciiDigit

def hexDigit : Language Nat := oneOf isHexDigit

def sign (c : Char) : Language Nat := oneOf (· == c.toNat)

def letter (c : Char) : Language Nat := oneOf (isEither c)

/-- `u`, `l`, `ul` or `lu`. -/
def integerSuffix : Language Nat :=
  letter 'u' + letter 'l' + letter 'u' * letter 'l' + letter 'l' * letter 'u'

/-- `d`, `f` or `m`. -/
def realSuffix : Language Nat := letter 'd' + letter 'f' + letter 'm'

/-- `e`, an optional sign and one to three digits. -/
def exponent : Language Nat := letter 'e' * (1 + (sign '+' + sign '-')) * between 1 3 digit

def integer : Language Nat := plus digit * (1 + integerSuffix)

/-- `0x`, hexadecimal digits and an optional suffix. -/
def hex : Language Nat := sign '0' * letter 'x' * plus hexDigit * (1 + integerSuffix)

/-- The digits before a decimal point: some where the settings ask for them, and any number
otherwise. -/
def leading (o : Options) : Language Nat := if o.requireDigits then plus digit else digit∗

/-- The three forms of a real: with a decimal point, with an exponent, or with a suffix. -/
def real (o : Options) : Language Nat :=
  leading o * oneOf (· == o.decimalPoint) * plus digit * (1 + exponent) * (1 + realSuffix)
    + plus digit * exponent * (1 + realSuffix) + plus digit * realSuffix

/-- A backslash, and another one, a quote, `t`, `r` or `n`, or `u` and four hexadecimal digits. -/
def escape : Language Nat :=
  sign '\\' * (oneOf shortEscape + letter 'u' * hexDigit ^ 4)

/-- Any character but a quote, a backslash and the line ends, or an escape. -/
def character (quote : Char) : Language Nat := oneOf (isPlain quote) + escape

/-- Any number of characters between double quotes. -/
def string : Language Nat := sign '"' * (character '"')∗ * sign '"'

def char : Language Nat := sign '\'' * character '\'' * sign '\''

/-- Characters other than number signs and line ends between number signs. -/
def dateTime : Language Nat := sign '#' * plus (oneOf fun c => c != 0x23 && !isLineEnd c) * sign '#'

/-- `##[d.]hh:mm[:ss[.fffffff]]#`. -/
def timeSpan : Language Nat :=
  sign '#' * sign '#' * (1 + plus digit * sign '.') * digit ^ 2 * sign ':' * digit ^ 2
    * (1 + sign ':' * digit ^ 2 * (1 + sign '.' * between 1 7 digit)) * sign '#'

end Words

open Words

section Classes

variable {A B : Language Nat} {S T : Set Nat} {p : Nat → Bool} {l m : List Nat}

/-- A class and some characters outside it. -/
theorem disjoint_of_forall_mem (hS : S ⊆ {c | p c = true}) (hT : T ⊆ {c | c ∈ l})
    (h : ∀ c ∈ l, p c = false) :
    Disjoint S T := by
  refine Set.disjoint_left.2 fun c hc hc' => ?_
  have := h c (hT hc')
  rw [hS hc] at this
  cases this

theorem disjoint_of_mem (hS : S ⊆ {c | c ∈ l}) (hT : T ⊆ {c | c ∈ m})
    (h : ∀ c ∈ m, c ∉ l) : Disjoint S T :=
  Set.disjoint_right.2 fun c hc hc' => h c (hT hc) (hS hc')

theorem first_sign (c : Char) : first (sign c) = {n | n ∈ [c.toNat]} := by
  rw [sign, first_oneOf]
  simp only [beq_iff_eq, List.mem_singleton]

theorem first_letter (c : Char) : first (letter c) = {n | n ∈ [c.toNat, c.toUpper.toNat]} := by
  rw [letter, first_oneOf]
  simp [isEither]

theorem first_letter_mul (c : Char) (A : Language Nat) :
    first (letter c * A) ⊆ {n | n ∈ [c.toNat, c.toUpper.toNat]} :=
  (first_mul_subset (nil_notMem_oneOf _) A).trans_eq (first_letter c)

theorem first_sign_mul (c : Char) (A : Language Nat) : first (sign c * A) ⊆ {n | n ∈ [c.toNat]} :=
  (first_mul_subset (nil_notMem_oneOf _) A).trans_eq (first_sign c)

end Classes

section Integers

end Integers

section Reals

variable {o : Options}

/-- What follows the digits of a real without a decimal point. -/
def plain : Scanner := either (both exponent (optional realSuffix)) realSuffix

/-- A decimal point, digits and what may follow them. -/
def pointed (o : Options) : Scanner :=
  both (one (· == o.decimalPoint))
    (both (many1 isAsciiDigit) (both (optional exponent)
      (both (optional realSuffix) fun _ => some 0)))

theorem isBadSeparator_decimalPoint (hvalid : o.fault? = none) :
    isBadSeparator o.decimalPoint = false := by
  unfold Options.fault? at hvalid
  split at hvalid
  · cases hvalid
  · split at hvalid
    · cases hvalid
    · rename_i hfind
      simpa using List.find?_eq_none.1 hfind o.decimalPoint (by simp)

end Reals

section Quoted

theorem disjoint_shortEscape (A : Language Nat) :
    Disjoint (first (oneOf shortEscape)) (first (letter 'u' * A)) :=
  disjoint_of_forall_mem (first_oneOf _).subset (first_letter_mul 'u' A) (by decide)

theorem scans_escape : Scans (both (mark '\\') escape) Words.escape := by
  have hcode : Scans (both (one (isEither 'u')) (exactly isHexDigit 4))
      (letter 'u' * hexDigit ^ 4) :=
    (scans_one _).both (scans_exactly _ 4) (apart_of_next_eq_empty (next_oneOf _) _)
  exact (scans_one _).both ((scans_one _).either hcode (nil_notMem_oneOf _)
    (disjoint_shortEscape _))
    (apart_of_next_eq_empty (next_oneOf _) _)

/-- No escape goes on as another one. -/
theorem next_escape : next Words.escape = ∅ :=
  next_mul_eq_empty (next_oneOf _) (next_add_eq_empty (next_oneOf _)
    (next_mul_eq_empty (next_oneOf _) (next_oneOf_pow _ 4)) (nil_notMem_oneOf _)
      (nil_notMem_mul (nil_notMem_oneOf _))
    (disjoint_shortEscape _))

theorem nil_notMem_escape : [] ∉ Words.escape := nil_notMem_mul (nil_notMem_oneOf _)

theorem disjoint_isPlain (quote : Char) : Disjoint (first (oneOf (isPlain quote)))
    (first Words.escape) :=
  disjoint_of_forall_mem (first_oneOf _).subset (first_sign_mul '\\' _) (by simp [isPlain])

/-- A character of a literal: an escape, or one that stands for itself. -/
def characterScanner (quote : Char) : Scanner :=
  either (both (mark '\\') escape) (one (isPlain quote))

theorem scans_character (quote : Char) : Scans (characterScanner quote) (character quote) :=
  (scans_escape.either (scans_one _) nil_notMem_escape (disjoint_isPlain quote).symm).congr
    (add_comm _ _)

theorem next_character (quote : Char) : next (character quote) = ∅ :=
  next_add_eq_empty (next_oneOf _) next_escape (nil_notMem_oneOf _) nil_notMem_escape
    (disjoint_isPlain quote)

theorem nil_notMem_character (quote : Char) : [] ∉ character quote :=
  nil_notMem_add (nil_notMem_oneOf _) nil_notMem_escape

theorem scans_char : Scans scanChar Words.char :=
  ((scans_one _).both ((scans_character '\'').both (scans_one _).last
    (apart_of_next_eq_empty (next_character _) _))
    (apart_of_next_eq_empty (next_oneOf _) _)).congr (mul_assoc _ _ _).symm

/-- The rest of a string is the closing quote, or a character and a rest. -/
theorem stringBody_eq : stringBody 0 = either (mark '"')
    (both (characterScanner '"') (stringBody 0)) := by
  funext gs
  cases gs with
  | nil => rfl
  | cons g gs =>
    have hquote : mark '"' (g :: gs) = if g.code = 0x22 then some 1 else none := by simp [mark, one]
    have hescape : both (mark '\\') escape (g :: gs) = if g.code = 0x5C then
        (escape gs).map (1 + ·) else none := by
      by_cases h : g.code = 0x5C <;> simp [both, mark, one, h]
    have hplain : one (isPlain '"') (g :: gs) =
        if g.code ≠ 0x5C ∧ g.code ≠ 0x22 ∧ isLineEnd g.code = false then some 1 else none := by
      simp [one, isPlain, and_assoc]
    rw [stringBody, either, both, characterScanner, either, hquote, hescape, hplain]
    by_cases h : g.code = 0x22
    · simp [h]
    · by_cases h' : g.code = 0x5C
      · cases hn : escape gs with
        | none => simp [h']
        | some n =>
          have hskip : (stringBody n gs).map (· + 1) =
              (stringBody 0 (gs.drop n)).map (1 + n + ·) := by
            rw [stringBody_skip n, Option.map_map]
            exact congrArg (Option.map · _) (funext fun m => by simp; omega)
          simpa [h', Nat.add_comm 1 n] using hskip
      · by_cases hend : isLineEnd g.code = true
        · simp [h, h', hend]
        · simp [h, h', hend, Nat.add_comm 1]

theorem scans_string : Scans scanString Words.string := by
  have hquote : Disjoint (first (character '"')) (first (sign '"')) := by
    rw [character, first_add]
    exact Set.disjoint_union_left.2 ⟨disjoint_of_forall_mem (first_oneOf _).subset
      (first_sign '"').subset (by decide),
      disjoint_of_mem (first_sign_mul '\\' _) (first_sign '"').subset (by decide)⟩
  have hbody := (scans_character '"').loop (scans_one _) (nil_notMem_character _)
    (nil_notMem_oneOf _)
    (next_character _) hquote stringBody_eq
  exact ((scans_one _).both hbody (apart_of_next_eq_empty (next_oneOf _) _)).congr
    (mul_assoc _ _ _).symm

end Quoted

section Dates

end Dates

end Lexical

end Formulary
