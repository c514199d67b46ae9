import Formulary.Proofs.Lexical.Tiling
import Formulary.Proofs.Number.Digits

/-!
# Numerals as they are written

Scanners are made of parts, and what a scanner takes is made of what its parts take (`Takes`). So
the image of a token of an integer, a hexadecimal or a real kind has a known form
(`exists_written`): its digits, and around them the point, the exponent and the suffix that it may
have.
-/

namespace Formulary

open Number (AllDigits Power powerChars)
open Text (Glyph)

namespace Lexical

def letters (gs : List Glyph) : List Char := gs.map fun g => Char.ofNat g.code

def Ascii (gs : List Glyph) : Prop := ∀ g ∈ gs, g.code < 0x80

def Takes (s : Scanner) (form : List Char → Prop) : Prop :=
  ∀ gs n, s gs = some n → n ≤ gs.length ∧ Ascii (gs.take n) ∧ form (letters (gs.take n))

section Characters

theorem letters_append (a b : List Glyph) : letters (a ++ b) = letters a ++
    letters b := List.map_append

theorem Ascii.append {a b : List Glyph} (h : Ascii a) (h' : Ascii b) : Ascii (a ++ b) := by
  intro g hg
  rcases List.mem_append.1 hg with hg | hg
  · exact h g hg
  · exact h' g hg

theorem toNat_ofNat {c : Nat} (h : c < 0x80) : (Char.ofNat c).toNat = c := by
  rw [Char.ofNat, dif_pos (.inl (by omega))]
  rfl

/-- A character is small, or a capital with its small form 32 places behind it. -/
theorem toLower_cases (c : Char) : c.toLower = c ∨ 0x41 ≤ c.toNat ∧ c.toNat ≤ 0x5A ∧
    c.toLower.toNat = c.toNat + 32 := by
  unfold Char.toLower
  split
  · rename_i h
    simp only [ge_iff_le, UInt32.le_iff_toNat_le] at h
    have hlow : 0x41 ≤ c.toNat := h.1
    have hhigh : c.toNat ≤ 0x5A := h.2
    have hshift : ('a'.val - 'A'.val).toNat = 32 := by decide
    refine .inr ⟨hlow, hhigh, ?_⟩
    simp only [Char.toNat] at hhigh
    simp only [Char.toNat, UInt32.toNat_add, hshift]
    exact Nat.mod_eq_of_lt (by omega)
  · exact .inl rfl

/-- Glyphs of ASCII are spelled by their characters. -/
theorem bytes_eq {gs : List Glyph} (hspelled : ∀ g ∈ gs, g.Spelled) (h : Ascii gs) :
    gs.flatMap (·.bytes) = Text.ofByteChars (letters gs) := by
  induction gs with
  | nil => rfl
  | cons g gs ih =>
    have hlt : g.code < 0x80 := h g List.mem_cons_self
    rw [List.flatMap_cons, (hspelled g List.mem_cons_self).bytes_of_lt hlt,
      ih (fun x hx => hspelled x (List.mem_cons_of_mem g hx)) fun x hx =>
        h x (List.mem_cons_of_mem g hx)]
    simp [letters, Text.ofByteChars, toNat_ofNat hlt]

end Characters

section Combinators

variable {s a b : Scanner} {form form' A B : List Char → Prop} {p : Nat → Bool}

theorem Takes.mono (h : Takes s form) (himp : ∀ cs, form cs → form' cs) : Takes s form' := by
  intro gs n hn
  obtain ⟨hle, hascii, hform⟩ := h gs n hn
  exact ⟨hle, hascii, himp _ hform⟩

theorem takes_one (hp : ∀ c, p c = true → c < 0x80) : Takes (one p) fun cs =>
    ∃ c, cs = [c] ∧ p c.toNat = true := by
  intro gs n hn
  obtain ⟨g, rest, rfl, hg, rfl⟩ := exists_of_one hn
  have hlt := hp _ hg
  refine ⟨by simp, by simpa [Ascii] using hlt, Char.ofNat g.code, rfl, ?_⟩
  rw [toNat_ofNat hlt]
  exact hg

theorem of_mem_take_run {gs : List Glyph} : ∀ g ∈ gs.take (run p gs), p g.code = true := by
  induction gs with
  | nil => exact List.forall_mem_nil _
  | cons g gs ih =>
    rw [run]
    split
    · intro x hx
      rw [List.take_succ_cons] at hx
      rcases List.mem_cons.1 hx with rfl | hx
      · assumption
      · exact ih x hx
    · exact List.forall_mem_nil _

theorem take_run (hp : ∀ c, p c = true → c < 0x80) (gs : List Glyph) :
    Ascii (gs.take (run p gs)) ∧ ∀ c ∈ letters (gs.take (run p gs)), p c.toNat = true := by
  have hmem := @of_mem_take_run p gs
  refine ⟨fun g hg => hp _ (hmem g hg), fun c hc => ?_⟩
  obtain ⟨g, hg, rfl⟩ := List.mem_map.1 hc
  rw [toNat_ofNat (hp _ (hmem g hg))]
  exact hmem g hg

theorem takes_many1 (hp : ∀ c, p c = true → c < 0x80) :
    Takes (many1 p) fun cs => cs ≠ [] ∧ ∀ c ∈ cs, p c.toNat = true := by
  intro gs n hn
  simp only [many1, beq_iff_eq] at hn
  split at hn
  · cases hn
  · rename_i hzero
    cases hn
    have hle := run_le p gs
    obtain ⟨hascii, hform⟩ := take_run hp gs
    refine ⟨hle, hascii, fun hnil => hzero ?_, hform⟩
    have hlength := congrArg List.length hnil
    simpa [letters, Nat.min_eq_left hle] using hlength

theorem takes_upTo (hp : ∀ c, p c = true → c < 0x80) (m : Nat) :
    Takes (upTo p m) fun cs => ∀ c ∈ cs, p c.toNat = true := by
  intro gs n hn
  cases hn
  have hle := run_le p (gs.take m)
  rw [List.length_take] at hle
  have htake : gs.take (run p (gs.take m)) = (gs.take m).take (run p (gs.take m)) := by
    rw [List.take_take, Nat.min_eq_left (by omega)]
  rw [htake]
  exact ⟨by omega, take_run hp (gs.take m)⟩

theorem takes_both (ha : Takes a A) (hb : Takes b B) : Takes (both a b) fun cs =>
    ∃ u v, cs = u ++ v ∧ A u ∧ B v := by
  intro gs n hn
  obtain ⟨k, hk, hn⟩ := Option.bind_eq_some_iff.1 hn
  obtain ⟨m, hm, rfl⟩ := Option.map_eq_some_iff.1 hn
  obtain ⟨hle, hascii, hform⟩ := ha gs k hk
  obtain ⟨hle', hascii', hform'⟩ := hb (gs.drop k) m hm
  rw [List.length_drop] at hle'
  rw [List.take_add, letters_append]
  exact ⟨by omega, hascii.append hascii', _, _, rfl, hform, hform'⟩

theorem takes_either (ha : Takes a A) (hb : Takes b B) : Takes (either a b) fun cs =>
    A cs ∨ B cs := by
  intro gs n hn
  rcases Option.or_eq_some_iff.1 hn with hn | ⟨-, hn⟩
  · obtain ⟨hle, hascii, hform⟩ := ha gs n hn
    exact ⟨hle, hascii, .inl hform⟩
  · obtain ⟨hle, hascii, hform⟩ := hb gs n hn
    exact ⟨hle, hascii, .inr hform⟩

theorem takes_optional (h : Takes s form) : Takes (optional s) fun cs => cs = [] ∨ form cs := by
  intro gs n hn
  cases hs : s gs with
  | none =>
    simp only [optional, hs, Option.getD_none, Option.some.injEq] at hn
    subst hn
    exact ⟨Nat.zero_le _, List.forall_mem_nil _, .inl rfl⟩
  | some m =>
    simp only [optional, hs, Option.getD_some, Option.some.injEq] at hn
    subst hn
    obtain ⟨hle, hascii, hform⟩ := h gs m hs
    exact ⟨hle, hascii, .inr hform⟩

/-- The last of several parts. -/
theorem takes_last (h : Takes s form) : Takes (both s fun _ => some 0) form := by
  intro gs n hn
  obtain ⟨k, hk, hn⟩ := Option.bind_eq_some_iff.1 hn
  cases hn
  exact h gs k hk

end Combinators

section Forms

/-- The letters of integers in all orders, in small letters. -/
def integerSuffixes : List (List Char) := [[], ['u'], ['l'], ['u', 'l'], ['l', 'u']]

theorem letter_of_mem_suffix : ∀ s ∈ integerSuffixes, ∀ c ∈ s, c = 'u' ∨ c = 'l' := by
  simp [integerSuffixes]

def IsRealSuffix (c : Char) : Prop := c ∈ ['d', 'D', 'f', 'F', 'm', 'M']

theorem lt_of_isEither {x : Char} (hx : x.toNat < 0x80) (hx' : x.toUpper.toNat < 0x80) {c : Nat}
    (h : isEither x c = true) : c < 0x80 := by
  simp only [isEither, Bool.or_eq_true, beq_iff_eq] at h
  omega

theorem eq_of_isEither {x c : Char} (h : isEither x c.toNat = true) : c = x ∨ c = x.toUpper := by
  simpa [isEither, Char.toNat_inj] using h

theorem takes_letter {x : Char} (hx : x.toNat < 0x80) (hx' : x.toUpper.toNat < 0x80) :
    Takes (one (isEither x)) fun cs => cs = [x] ∨ cs = [x.toUpper] :=
  (takes_one fun _ => lt_of_isEither hx hx').mono fun cs ⟨c, hcs, hc⟩ => by
    rcases eq_of_isEither hc with rfl | rfl
    · exact .inl hcs
    · exact .inr hcs

theorem lt_of_isAsciiDigit {c : Nat} (h : Text.isAsciiDigit c = true) : c < 0x80 := by
  simp only [Text.isAsciiDigit, Bool.and_eq_true, decide_eq_true_eq] at h
  omega

theorem isDigit_of_isAsciiDigit {c : Char} (h : Text.isAsciiDigit c.toNat = true) :
    c.isDigit = true := by
  simp only [Text.isAsciiDigit, Bool.and_eq_true, decide_eq_true_eq] at h
  simp only [Char.isDigit, Bool.and_eq_true, decide_eq_true_eq, ge_iff_le, UInt32.le_iff_toNat_le]
  exact h

theorem takes_integerSuffix : Takes integerSuffix fun cs =>
    cs.map Char.toLower ∈ integerSuffixes := by
  have hu := takes_letter (x := 'u') (by decide) (by decide)
  have hl := takes_letter (x := 'l') (by decide) (by decide)
  refine (takes_optional (takes_either (takes_both hu (takes_optional hl))
    (takes_both hl (takes_optional hu)))).mono ?_
  rintro cs (rfl | ⟨u, v, rfl, hu, hv⟩ | ⟨u, v, rfl, hu, hv⟩)
  · decide
  · rcases hu with rfl | rfl <;> rcases hv with rfl | rfl | rfl <;> decide
  · rcases hu with rfl | rfl <;> rcases hv with rfl | rfl | rfl <;> decide

theorem takes_realSuffix : Takes realSuffix fun cs => ∃ c, cs = [c] ∧ IsRealSuffix c := by
  refine (takes_one fun c hc => ?_).mono ?_
  · simp only [Bool.or_eq_true] at hc
    rcases hc with (hc | hc) | hc
    all_goals exact lt_of_isEither (by decide) (by decide) hc
  · rintro cs ⟨c, rfl, hc⟩
    refine ⟨c, rfl, ?_⟩
    simp only [Bool.or_eq_true] at hc
    rcases hc with (hc | hc) | hc
    all_goals rcases eq_of_isEither hc with rfl | rfl <;> unfold IsRealSuffix <;> decide

theorem takes_exponent : Takes exponent fun cs => ∃ p : Power, p.Proper ∧ cs = p.chars := by
  have hsign : ∀ c, (c == 0x2B || c == 0x2D) = true → c < 0x80 := by
    intro c hc
    simp only [Bool.or_eq_true, beq_iff_eq] at hc
    omega
  refine (takes_both (takes_letter (x := 'e') (by decide) (by decide))
    (takes_both (takes_optional (takes_one hsign))
    (takes_both (takes_one fun _ => lt_of_isAsciiDigit)
      (takes_last (takes_upTo (fun _ => lt_of_isAsciiDigit) 2))))).mono ?_
  rintro cs ⟨e, u, rfl, he, s, v, rfl, hs, d, ds, rfl, ⟨x, rfl, hx⟩, hds⟩
  have hdigits : AllDigits (x :: ds) := by
    intro c hc
    rcases List.mem_cons.1 hc with rfl | hc
    · exact isDigit_of_isAsciiDigit hx
    · exact isDigit_of_isAsciiDigit (hds c hc)
  obtain ⟨letter, rfl, hletter⟩ : ∃ letter, e = [letter] ∧ (letter = 'e' ∨ letter = 'E') := by
    rcases he with rfl | rfl
    · exact ⟨'e', rfl, .inl rfl⟩
    · exact ⟨'E', rfl, .inr rfl⟩
  rcases hs with rfl | ⟨c, rfl, hc⟩
  · exact ⟨⟨letter, none, x :: ds⟩, ⟨hletter, nofun, hdigits,
      List.cons_ne_nil _ _⟩, by simp [Power.chars]⟩
  · have hc : c = '+' ∨ c = '-' := by simpa [← Char.toNat_inj] using hc
    refine ⟨⟨letter, some c, x :: ds⟩, ⟨hletter, ?_, hdigits,
      List.cons_ne_nil _ _⟩, by simp [Power.chars]⟩
    rintro _ ⟨⟩
    exact hc

structure Tail (power : Option Power) (suffix : Option Char) : Prop where
  power : ∀ p ∈ power, p.Proper
  suffix : ∀ c ∈ suffix, IsRealSuffix c

theorem takes_ending : Takes (parts [optional exponent, optional realSuffix]) fun cs =>
    ∃ power suffix, cs = powerChars power ++ suffix.toList ∧ Tail power suffix := by
  refine (takes_both (takes_optional takes_exponent)
    (takes_last (takes_optional takes_realSuffix))).mono ?_
  rintro cs ⟨u, v, rfl, hu, hv⟩
  obtain ⟨power, rfl, hpower⟩ : ∃ power, u = powerChars power ∧ ∀ p ∈ power, p.Proper := by
    rcases hu with rfl | ⟨p, hp, rfl⟩
    · exact ⟨none, rfl, nofun⟩
    · exact ⟨some p, rfl, by simpa using hp⟩
  rcases hv with rfl | ⟨c, rfl, hc⟩
  · exact ⟨power, none, rfl, hpower, nofun⟩
  · exact ⟨power, some c, rfl, hpower, by simpa using hc⟩

/-- What makes a real of digits without a point. -/
theorem takes_plain : Takes (either (both exponent (optional realSuffix)) realSuffix) fun cs =>
    ∃ power suffix, cs = powerChars power ++ suffix.toList ∧ Tail power suffix ∧
      (power = none → suffix ≠ none) := by
  refine (takes_either (takes_both takes_exponent (takes_optional takes_realSuffix))
    takes_realSuffix).mono ?_
  rintro cs (⟨_, v, rfl, ⟨p, hp, rfl⟩, hv⟩ | ⟨c, rfl, hc⟩)
  · rcases hv with rfl | ⟨c, rfl, hc⟩
    · exact ⟨some p, none, rfl, ⟨by simpa using hp, nofun⟩, nofun⟩
    · exact ⟨some p, some c, rfl, ⟨by simpa using hp, by simpa using hc⟩, nofun⟩
  · exact ⟨none, some c, rfl, ⟨nofun, by simpa using hc⟩, nofun⟩

/-- What stands behind a point. -/
theorem takes_pointed :
    Takes (parts [many1 Text.isAsciiDigit, optional exponent, optional realSuffix]) fun cs =>
    ∃ part power suffix, cs = part ++ (powerChars power ++ suffix.toList) ∧
      AllDigits part ∧ part ≠ [] ∧
      Tail power suffix := by
  refine (takes_both (takes_many1 fun _ => lt_of_isAsciiDigit) takes_ending).mono ?_
  rintro _ ⟨part, _, rfl, ⟨hne, hpart⟩, power, suffix, rfl, htail⟩
  exact ⟨part, power, suffix, rfl, fun c hc => isDigit_of_isAsciiDigit (hpart c hc), hne, htail⟩

theorem takes_integer : Takes scanInteger fun cs =>
    ∃ digits suffix, cs = digits ++ suffix ∧ AllDigits digits ∧
    digits ≠ [] ∧ suffix.map Char.toLower ∈ integerSuffixes := by
  refine (takes_both (takes_many1 fun _ => lt_of_isAsciiDigit) takes_integerSuffix).mono ?_
  rintro _ ⟨digits, suffix, rfl, ⟨hne, hdigits⟩, hsuffix⟩
  exact ⟨digits, suffix, rfl, fun c hc => isDigit_of_isAsciiDigit (hdigits c hc), hne, hsuffix⟩

/-- Hexadecimal digits only. -/
def AllHexDigits (cs : List Char) : Prop := ∀ c ∈ cs, isHexDigit c.toNat = true

theorem lt_of_isHexDigit {c : Nat} (h : isHexDigit c = true) : c < 0x80 := by
  simp only [isHexDigit, Text.isAsciiDigit, Bool.or_eq_true, Bool.and_eq_true,
    decide_eq_true_eq] at h
  omega

theorem takes_hex : Takes scanHex fun cs => ∃ x digits suffix, cs = '0' :: x :: (digits ++ suffix) ∧
    (x = 'x' ∨ x = 'X') ∧ AllHexDigits digits ∧ digits ≠ [] ∧
      suffix.map Char.toLower ∈ integerSuffixes := by
  have hzero : ∀ c, (c == '0'.toNat) = true → c < 0x80 := by
    intro c hc
    rw [beq_iff_eq] at hc
    subst hc
    decide
  refine (takes_both (takes_one hzero) (takes_both (takes_letter (x := 'x') (by decide) (by decide))
    (takes_both (takes_many1 fun _ => lt_of_isHexDigit) (takes_last takes_integerSuffix)))).mono ?_
  rintro _ ⟨_, _, rfl, ⟨z, rfl, hz⟩, u, _, rfl, hu, digits, suffix, rfl, ⟨hne, hdigits⟩, hsuffix⟩
  have hz : z = '0' := Char.toNat_inj.1 (by simpa using hz)
  subst hz
  rcases hu with rfl | rfl
  · exact ⟨'x', digits, suffix, by simp, .inl rfl, hdigits, hne, hsuffix⟩
  · exact ⟨'X', digits, suffix, by simp, .inr rfl, hdigits, hne, hsuffix⟩

/-- What a scanner of reals takes: digits, the point with what comes behind it, or what makes a real
of the digits. -/
theorem scanReal_form {o : Options} {gs : List Glyph} {n : Nat} (h : scanReal o gs = some n) :
    n ≤ gs.length ∧ ∃ u p v, gs.take n = u ++ (p ++ v) ∧ Ascii u ∧ AllDigits (letters u) ∧ Ascii v ∧
      ((∃ g, p = [g] ∧ g.code = o.decimalPoint ∧ (u = [] → o.requireDigits = false) ∧
          ∃ part power suffix, letters v = part ++ (powerChars power ++ suffix.toList) ∧
            AllDigits part ∧ part ≠ [] ∧
            Tail power suffix) ∨
        p = [] ∧ u ≠ [] ∧ ∃ power suffix, letters v = powerChars power ++ suffix.toList ∧
          Tail power suffix ∧
          (power = none → suffix ≠ none)) := by
  have hle := run_le Text.isAsciiDigit gs
  obtain ⟨hascii, hdigits⟩ := take_run (fun _ => lt_of_isAsciiDigit) gs
  have hdigits : AllDigits (letters (gs.take (run Text.isAsciiDigit gs))) :=
    fun c hc => isDigit_of_isAsciiDigit (hdigits c hc)
  have hempty : gs.take (run Text.isAsciiDigit gs) = [] → run Text.isAsciiDigit gs = 0 := by
    intro hnil
    have hlength := congrArg List.length hnil
    rwa [List.length_take, List.length_nil, Nat.min_eq_left hle] at hlength
  unfold scanReal at h
  simp only at h
  generalize run Text.isAsciiDigit gs = whole at h hle hascii hdigits hempty
  split at h
  · rename_i hpoint
    obtain ⟨k, hk⟩ := Option.isSome_iff_exists.1 hpoint
    obtain ⟨g, rest, hrest, hg, -⟩ := exists_of_one hk
    split at h
    · cases h
    · rename_i hrequire
      obtain ⟨m, hm, rfl⟩ := Option.map_eq_some_iff.1 h
      rw [hrest, List.drop_succ_cons, List.drop_zero] at hm
      obtain ⟨hle', hascii', hform⟩ := takes_pointed rest m hm
      have hlength := congrArg List.length hrest
      rw [List.length_drop, List.length_cons] at hlength
      refine ⟨by omega, gs.take whole, [g], rest.take m, ?_, hascii, hdigits, hascii', .inl ⟨g,
        rfl, by simpa using hg, ?_, hform⟩⟩
      · rw [Nat.add_assoc, List.take_add, hrest, Nat.add_comm, List.take_succ_cons]
        rfl
      · intro hnil
        simpa [hempty hnil] using hrequire
  · split at h
    · cases h
    · rename_i hwhole
      obtain ⟨m, hm, rfl⟩ := Option.map_eq_some_iff.1 h
      obtain ⟨hle', hascii', hform⟩ := takes_plain _ m hm
      rw [List.length_drop] at hle'
      refine ⟨by omega, gs.take whole, [], (gs.drop
        whole).take m, ?_, hascii, hdigits, hascii', .inr ⟨rfl, ?_, hform⟩⟩
      · rw [List.take_add, List.nil_append]
      · intro hnil
        simp [hempty hnil] at hwhole

end Forms

inductive Written where
  | integer (digits suffix : List Char)
  | hex (letter : Char) (digits suffix : List Char)
  | real (whole : List Char) (point : Text) (part : List Char) (power : Option Power)
      (suffix : Option Char)

namespace Written

def kind : Written → Kind
  | .integer .. => .integer
  | .hex .. => .hex
  | .real .. => .real

def image : Written → Text
  | .integer digits suffix => Text.ofByteChars (digits ++ suffix)
  | .hex letter digits suffix => Text.ofByteChars ('0' :: letter :: (digits ++ suffix))
  | .real whole point part power suffix =>
    Text.ofByteChars whole ++ (point ++ Text.ofByteChars
      (part ++ (powerChars power ++ suffix.toList)))

inductive PointOf (o : Options) : Text → Prop
  | own : PointOf o (Text.encode o.decimalPoint)
  | stray (h : o.decimalPoint = Text.replacement) {b : UInt8} (hb : 0x80 ≤ b.toNat) : PointOf o [b]

inductive Proper (o : Options) : Written → Prop
  | integer {digits suffix : List Char} (hdigits : AllDigits digits) (hne : digits ≠ [])
    (hsuffix : suffix.map Char.toLower ∈ integerSuffixes) : Proper o (.integer digits suffix)
  | hex {letter : Char} {digits suffix : List Char} (hletter : letter = 'x' ∨ letter = 'X')
      (hdigits : AllHexDigits digits)
    (hne : digits ≠ []) (hsuffix : suffix.map Char.toLower ∈ integerSuffixes) :
    Proper o (.hex letter digits suffix)
  | pointed {whole part : List Char} {point : Text} {power : Option Power} {suffix : Option Char}
      (hwhole : AllDigits whole)
    (hrequire : whole = [] → o.requireDigits = false) (hpoint : PointOf o point)
    (hpart : AllDigits part) (hne : part ≠ [])
    (htail : Tail power suffix) : Proper o (.real whole point part power suffix)
  | plain {whole : List Char} {power : Option Power} {suffix : Option Char}
      (hwhole : AllDigits whole) (hne : whole ≠ [])
    (htail : Tail power suffix) (hsome : power = none → suffix ≠ none) :
    Proper o (.real whole [] [] power suffix)

/-- A numeral whose point is not the first spelling of the decimal point in it: a sign of its
exponent spells the decimal point and no point stands before it, or what stands for the point is no
spelling of it. -/
def Misread (o : Options) : Written → Prop
  | .real _ point _ power _ =>
    point = [] ∧ (∃ p ∈ power, ∃ c ∈ p.sign, c.toNat = o.decimalPoint) ∨ point ≠ [] ∧
      point ≠ Text.encode o.decimalPoint
  | _ => False

end Written

section Tokens

variable {o : Options} {l : Lexer}

/-- A token is what stands at the front of some of the characters. -/
theorem exists_tokenAt? {p : Place} {gs : List Glyph} {t : Token}
    (ht : .token t ∈ (l.lexemes p gs).1) :
    ∃ rest n, (∀ g ∈ rest, g ∈ gs) ∧ l.tokenAt? rest = some (t.kind, n) ∧
      (n ≠ 0 → t.image = (rest.take n).flatMap (·.bytes)) := by
  fun_induction Lexer.lexemes l p gs with
  | case1 p => cases ht
  | case2 p g rest hblank ih =>
    obtain ⟨more, n, hmem, htoken⟩ := ih ht
    exact ⟨more, n, fun x hx => List.mem_cons_of_mem g (hmem x hx), htoken⟩
  | case3 p g rest hblank hnone more last heq ih =>
    rw [heq] at ih
    obtain ⟨more, n, hmem, htoken⟩ := ih (by simpa using ht)
    exact ⟨more, n, fun x hx => List.mem_cons_of_mem g (hmem x hx), htoken⟩
  | case4 p g rest hblank kind n htoken taken more last heq ih =>
    rcases List.mem_cons.1 ht with ht | ht
    · cases ht
      refine ⟨g :: rest, n, fun x hx => hx, htoken, fun hn => ?_⟩
      obtain ⟨m, rfl⟩ := Nat.exists_eq_succ_of_ne_zero hn
      rfl
    · rw [heq] at ih
      obtain ⟨more, m, hmem, hrest⟩ := ih ht
      exact ⟨more, m, fun x hx => List.mem_cons_of_mem g (List.mem_of_mem_drop (hmem x hx)), hrest⟩

/-- A token that takes all characters is the only one. -/
theorem lexemes_lone {p : Place} {gs : List Glyph} {k : Kind}
    (hblank : ∀ g ∈ gs.head?, isBlank g.code = false)
    (hne : gs ≠ []) (h : l.tokenAt? gs = some (k, gs.length)) :
    l.lexemes p gs = ([.token ⟨k, gs.flatMap (·.bytes), p⟩], p.afterAll gs) := by
  obtain ⟨g, rest, rfl⟩ := List.exists_cons_of_ne_nil hne
  rw [Lexer.lexemes, if_neg (by simp [hblank g rfl]), h]
  simp only [List.length_cons, Nat.add_sub_cancel, List.take_length,
    List.drop_length, Lexer.lexemes]

/-- No fixed string starts with a digit. -/
theorem tokenAt?_numeral (hvalid : o.fault? = none) {gs : List Glyph} {k : Kind}
    {n : Nat} (hne : gs ≠ []) (hdigit : ∀ g ∈ gs.head?, Text.isAsciiDigit g.code = true)
    (h : longestScan (scanners o) gs = some (k, n)) :
    (Lexer.ofOptions o).tokenAt? gs = some (k, n) := by
  have hunspelled : Unspelled (gs.map (·.code)) := by
    obtain ⟨g, rest, rfl⟩ := List.exists_cons_of_ne_nil hne
    exact .inl (isAsciiDigit_cases (hdigit g rfl)).1
  exact (tokenAt?_eq_longestScan (longest?_unspelled hvalid hunspelled)).trans h

/-- A numeral that takes a whole text is its only token. -/
theorem read_numeral (hvalid : o.fault? = none) {text : Text} {k : Kind} (hne : text.glyphs ≠ [])
    (hdigit : ∀ g ∈ text.glyphs.head?, Text.isAsciiDigit g.code = true)
    (h : longestScan (scanners o) text.glyphs = some (k, text.glyphs.length)) :
    (Lexer.ofOptions o).read text = ([.token ⟨k, text, {}⟩],
      ⟨.eof, [], Place.afterAll {} text.glyphs⟩) := by
  have hlexemes := lexemes_lone (p := {}) (fun g hg =>
    (isAsciiDigit_cases (hdigit g hg)).2.2.2.2) hne
    (tokenAt?_numeral hvalid hne hdigit h)
  rw [Text.flatMap_bytes_glyphs] at hlexemes
  rw [read_eq, Lexer.outline, hlexemes]

theorem tokenize_numeral (hvalid : o.fault? = none) {text : Text} {k : Kind}
    (hne : text.glyphs ≠ []) (hdigit : ∀ g ∈ text.glyphs.head?, Text.isAsciiDigit g.code = true)
    (h : longestScan (scanners o) text.glyphs = some (k, text.glyphs.length)) :
    (Lexer.ofOptions o).tokenize text = ([⟨k, text, {}⟩], []) := by
  rw [Lexer.tokenize, read_numeral hvalid hne hdigit h]
  rfl

/-- A minus sign before a numeral is a token of its own, unless it can be the point of a real. -/
theorem read_signed (hvalid : o.fault? = none)
    (hpoint : o.decimalPoint = 0x2D → o.requireDigits = true) {text : Text}
    {k : Kind} (hne : text.glyphs ≠ []) (hdigit : ∀ g ∈ text.glyphs.head?,
      Text.isAsciiDigit g.code = true)
    (h : longestScan (scanners o) text.glyphs = some (k, text.glyphs.length)) :
    (Lexer.ofOptions o).read (0x2D :: text) = ([.token minusToken, .token ⟨k, text, ⟨1, 1, 2⟩⟩],
      ⟨.eof, [], Place.afterAll ⟨1, 1, 2⟩ text.glyphs⟩) := by
  have hglyphs : Text.glyphs (0x2D :: text) = dash :: text.glyphs := rfl
  have hsign : (Lexer.ofOptions o).tokenAt? (dash :: text.glyphs) = some (.minus, 1) := by
    refine tokenAt?_of_longest? (scanners_sign (.inl rfl) fun hdash hrequire => ?_)
      (longest?_symbol hvalid (by decide) commonEntries_signs.1 (.inl rfl))
    exact absurd ((hpoint hdash.symm).symm.trans hrequire) nofun
  have hlexemes := lexemes_lone (p := ⟨1, 1, 2⟩) (fun g hg =>
    (isAsciiDigit_cases (hdigit g hg)).2.2.2.2) hne
    (tokenAt?_numeral hvalid hne hdigit h)
  have hplace : Place.afterAll {} [dash] = ⟨1, 1, 2⟩ := rfl
  rw [Text.flatMap_bytes_glyphs] at hlexemes
  rw [read_eq, Lexer.outline, hglyphs, Lexer.lexemes, if_neg (by decide), hsign]
  simp only [Nat.sub_self, List.take_zero, List.drop_zero, hplace, hlexemes]
  rfl

/-- A fixed string has the kind of an entry. -/
theorem exists_of_longest? {d : Dictionary} {gs : List Glyph} {k : Kind} {n : Nat}
    (h : d.longest? gs = some (k, n)) :
    ∃ e ∈ d, e.kind = k := by
  dsimp only [Dictionary.longest?] at h
  generalize List.map (·.code) (gs.take _) = codes at h
  generalize codes.length = m at h
  induction m with
  | zero => cases h
  | succ m ih =>
    rw [Dictionary.longestUpTo] at h
    split at h
    · rename_i kind hkind
      cases h
      obtain ⟨hkind, -⟩ := Option.filter_eq_some_iff.1 hkind
      obtain ⟨e, he, rfl⟩ := Option.map_eq_some_iff.1 hkind
      exact ⟨e, List.mem_of_find?_eq_some he, rfl⟩
    · exact ih h

/-- No fixed string has a kind of the scanners. -/
theorem kind_of_longest? {gs : List Glyph} {k : Kind} {n : Nat}
    (h : (Lexer.ofOptions o).dictionary.longest? gs = some (k, n)) :
    k ∉ (scanners o).map (·.1) := by
  have hcommon : ∀ e ∈ commonEntries, e.kind ∉ (scanners {}).map (·.1) := by decide +kernel
  obtain ⟨e, he, rfl⟩ := exists_of_longest? h
  rw [dictionary_ofOptions] at he
  rcases List.mem_cons.1 he with rfl | he
  · exact (by decide : Kind.separator ∉ (scanners {}).map (·.1))
  · exact hcommon e he

/-- A token of a kind of the scanners is what a scanner takes. -/
theorem scanned_of_tokenAt? {gs : List Glyph} {k : Kind} {n : Nat}
    (h : (Lexer.ofOptions o).tokenAt? gs = some (k, n))
    (hk : k ∈ (scanners o).map (·.1)) : ∃ s, (k, s) ∈ scanners o ∧ s gs = some n := by
  have hscan : longestScan (scanners o) gs = some (k, n) := by
    unfold Lexer.tokenAt? at h
    simp only at h
    split at h
    · rename_i hdictionary hscanned
      split at h
      · cases h
        exact hscanned
      · cases h
        exact absurd hk (kind_of_longest? hdictionary)
    · rename_i hdictionary _
      cases h
      exact absurd hk (kind_of_longest? hdictionary)
    · exact h
  exact longestScan_scanned hscan

theorem numeral_of_tokenAt? {gs : List Glyph} {k : Kind} {n : Nat}
    (h : (Lexer.ofOptions o).tokenAt? gs = some (k, n)) (hk : k = .integer ∨ k = .hex ∨ k = .real) :
    k = .integer ∧ scanInteger gs = some n ∨ k = .hex ∧ scanHex gs = some n ∨ k = .real ∧
      scanReal o gs = some n := by
  obtain ⟨scan, hmem, hn⟩ := scanned_of_tokenAt? h
    (by rcases hk with rfl | rfl | rfl <;> simp [scanners])
  rcases hk with rfl | rfl | rfl
  · have hscan : scan = scanInteger := by simpa [scanners] using hmem
    exact .inl ⟨rfl, hscan ▸ hn⟩
  · have hscan : scan = scanHex := by simpa [scanners] using hmem
    exact .inr (.inl ⟨rfl, hscan ▸ hn⟩)
  · have hscan : scan = scanReal o := by simpa [scanners] using hmem
    exact .inr (.inr ⟨rfl, hscan ▸ hn⟩)

theorem pointOf_spelled {g : Glyph} (h : g.Spelled) (hg : g.code = o.decimalPoint) :
    Written.PointOf o g.bytes := by
  cases h with
  | @ascii b hb =>
    have hencode : [b] = Text.encode o.decimalPoint := by
      rw [← hg, Text.encode, if_pos hb, Text.toUInt8_eq rfl]
    rw [hencode]
    exact .own
  | @encoded c hc =>
    have hc : c = o.decimalPoint := hg
    subst hc
    exact .own
  | stray hb => exact .stray hg.symm hb

/-- A token of a text is read from characters that texts have. -/
theorem spelled_of_token {text : Text} {t : Token} (ht : t ∈ (l.tokenize text).1) :
    ∃ rest n, (∀ g ∈ rest.take n, g.Spelled) ∧ l.tokenAt? rest = some (t.kind, n) ∧
      (n ≠ 0 → t.image = (rest.take n).flatMap (·.bytes)) := by
  rw [Lexer.tokenize, read_eq] at ht
  obtain ⟨x, hx, htoken⟩ := List.mem_filterMap.1 ht
  rw [Lexeme.token?_eq_some] at htoken
  obtain ⟨rest, n, hmem, htaken⟩ := exists_tokenAt? (htoken ▸ hx)
  exact ⟨rest, n, fun g hg => Text.spelled_of_mem (hmem g (List.mem_of_mem_take hg)), htaken⟩

/-- The image of a numeral has the form of one that the settings allow. -/
theorem exists_written {text : Text} {t : Token} (ht : t ∈ ((Lexer.ofOptions o).tokenize text).1)
    (hk : t.kind = .integer ∨ t.kind = .hex ∨ t.kind = .real) :
    ∃ w : Written, w.Proper o ∧ w.kind = t.kind ∧ w.image = t.image := by
  obtain ⟨rest, n, hspelled, htaken, himage⟩ := spelled_of_token ht
  have hpos : letters (rest.take n) ≠ [] → n ≠ 0 := by
    rintro hne rfl
    exact hne rfl
  rcases numeral_of_tokenAt? htaken hk with ⟨hkind, hscan⟩ | ⟨hkind, hscan⟩ | ⟨hkind, hscan⟩
  · obtain ⟨-, hascii, digits, suffix, hform, hdigits, hne, hsuffix⟩ := takes_integer rest n hscan
    refine ⟨.integer digits suffix, .integer hdigits hne hsuffix, hkind.symm, ?_⟩
    rw [himage (hpos (by simp [hform, hne])), bytes_eq hspelled hascii, hform]
    rfl
  · obtain ⟨-, hascii, letter, digits, suffix, hform, hletter, hdigits, hne, hsuffix⟩ :=
      takes_hex rest n hscan
    refine ⟨.hex letter digits suffix, .hex hletter hdigits hne hsuffix, hkind.symm, ?_⟩
    rw [himage (hpos (by simp [hform])), bytes_eq hspelled hascii, hform]
    rfl
  · obtain ⟨-, u, p, v, hform, hascii, hdigits, hascii', hrest⟩ := scanReal_form hscan
    rw [hform] at himage hspelled hpos
    have hu := bytes_eq (fun g hg => hspelled g (by simp [hg])) hascii
    have hv := bytes_eq (fun g hg => hspelled g (by simp [hg])) hascii'
    rcases hrest with ⟨g, rfl, hg, hrequire, part, power, suffix, hpart, hparts⟩ | ⟨rfl, hne, power,
      suffix, hplain, hparts⟩
    · refine ⟨.real (letters u) g.bytes part power suffix,
        .pointed hdigits (fun hnil => hrequire ?_)
        (pointOf_spelled (hspelled g (by simp)) hg) hparts.1 hparts.2.1 hparts.2.2, hkind.symm, ?_⟩
      · exact List.map_eq_nil_iff.1 hnil
      · rw [himage (hpos (by simp [letters])), List.flatMap_append, List.flatMap_append,
          List.flatMap_singleton, hu, hv, hpart]
        rfl
    · refine ⟨.real (letters u) [] [] power suffix,
        .plain hdigits (by simpa [letters] using hne) hparts.1 hparts.2,
        hkind.symm, ?_⟩
      rw [himage (hpos (by simp [letters, hne])), List.flatMap_append,
        List.flatMap_append, hu, hv, hplain]
      rfl

end Tokens

end Lexical

end Formulary
