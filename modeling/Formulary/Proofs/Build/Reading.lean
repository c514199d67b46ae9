import Formulary.Proofs.Lexical.Numerals
import Formulary.Build.Literal

/-!
# Numerals are read as they are written

The number of a numeral is read from its image, which has the form that the scanners give it. Where
the decimal point is the sign of an exponent as well, or a stray byte stands for it, the point is
looked for in the wrong place, and the numeral has no value; every other numeral has a constant or
is too large (`number_written`).
-/

namespace Formulary

open Number (AllDigits Numeral Power digitsValue powerChars powerValue)

namespace Text

section Finding

variable {a t sub : Text}

/-- A text is not found where none of its first bytes stands. -/
theorem find?_behind (ha : ∀ b ∈ a, sub.head? ≠ some b) (hne : sub ≠ []) :
    find? (a ++ t) sub = (find? t sub).map (· + a.length) := by
  induction a with
  | nil => simp
  | cons b a ih =>
    obtain ⟨x, sub, rfl⟩ := List.exists_cons_of_ne_nil hne
    have hb : x ≠ b := by simpa using ha b List.mem_cons_self
    have hstart : startsWith (b :: (a ++ t)) (x :: sub) = false := by
      simp [startsWith, List.isPrefixOf, hb]
    rw [List.cons_append, find?, hstart, if_neg Bool.false_ne_true, ih fun y hy =>
      ha y (List.mem_cons_of_mem b hy),
      Option.map_map]
    rfl

theorem find?_front (t sub : Text) : find? (sub ++ t) sub = some 0 := by
  have hstart : startsWith (sub ++ t) sub = true := by simp [startsWith]
  cases hcons : sub ++ t with
  | nil =>
    obtain ⟨rfl, -⟩ := List.append_eq_nil_iff.1 hcons
    rfl
  | cons b rest =>
    rw [hcons] at hstart
    rw [find?, if_pos hstart]

theorem find?_eq_none (ht : ∀ b ∈ t, sub.head? ≠ some b) (hne : sub ≠ []) : find? t sub = none := by
  obtain ⟨x, sub, rfl⟩ := List.exists_cons_of_ne_nil hne
  have h := find?_behind (t := []) ht hne
  rw [List.append_nil] at h
  exact h

end Finding

section Bytes

variable {cs : List Char}

theorem byteChars_append (a b : Text) : byteChars (a ++ b) = byteChars a ++
    byteChars b := List.map_append

theorem ofByteChars_append (a b : List Char) : ofByteChars (a ++ b) = ofByteChars a ++
    ofByteChars b := List.map_append

/-- Characters of bytes are spelled by their bytes. -/
theorem byteChars_ofByteChars_of_lt (h : ∀ c ∈ cs, c.toNat < 256) :
    byteChars (ofByteChars cs) = cs := by
  rw [byteChars, ofByteChars, List.map_map]
  refine (List.map_congr_left fun c hc => ?_).trans (List.map_id cs)
  rw [Function.comp_apply, toNat_toUInt8 (h c hc), Char.ofNat_toNat]
  rfl

theorem byteChars_ofByteChars (h : ∀ c ∈ cs, c.toNat < 0x80) : byteChars (ofByteChars cs) = cs :=
  byteChars_ofByteChars_of_lt fun c hc => Nat.lt_trans (h c hc) (by decide)

/-- The first byte of a code point tells it from every other one of ASCII. -/
theorem head_encode_ne {p : Nat} {c : Char} (hc : c.toNat < 0x80) (hne : c.toNat ≠ p) :
    (encode p).head? ≠ some c.toNat.toUInt8 := by
  intro hhead
  by_cases hp : p < 0x80
  · rw [encode, if_pos hp] at hhead
    have hnat := congrArg UInt8.toNat (Option.some.inj hhead)
    rw [toNat_toUInt8 (by omega), toNat_toUInt8 (by omega)] at hnat
    exact hne hnat.symm
  · have hle := le_of_mem_encode (Nat.le_of_not_lt hp) (List.mem_of_mem_head? hhead)
    rw [toNat_toUInt8 (by omega)] at hle
    omega

end Bytes

end Text

namespace Build

open Lexical (AllHexDigits IsRealSuffix Kind Tail Token Written integerSuffixes)
open Lexical.Written (PointOf)

section Replacing

variable {a t old new : Text}

theorem replaceFirst_behind (ha : ∀ b ∈ a, old.head? ≠ some b) (hne : old ≠ []) :
    replaceFirst (a ++ (old ++ t)) old new = a ++ (new ++ t) := by
  rw [replaceFirst, Text.find?_behind ha hne, Text.find?_front]
  simp

theorem replaceFirst_of_find? (h : t.find? old = none) : replaceFirst t old new = t := by
  rw [replaceFirst, h]

end Replacing

section Integers

/-- The number of hexadecimal digits. -/
def hexValue (cs : List Char) : Nat := cs.foldl (fun n c => n * 16 + hexDigit c) 0

theorem isIntegerSuffix_of_toLower {c : Char} (h : c.toLower = 'u' ∨ c.toLower = 'l') :
    isIntegerSuffix c = true := by
  have hsmall : c.toLower.toNat = 0x75 ∨ c.toLower.toNat = 0x6C := by
    rcases h with h | h
    · exact .inl (congrArg Char.toNat h)
    · exact .inr (congrArg Char.toNat h)
  have hletter : ((c.toNat = 0x75 ∨ c.toNat = 0x55) ∨ c.toNat = 0x6C) ∨ c.toNat = 0x4C := by
    rcases Lexical.toLower_cases c with heq | ⟨-, -, heq⟩
    · rw [heq] at hsmall
      omega
    · omega
  simp only [isIntegerSuffix, Bool.or_eq_true, beq_iff_eq, ← Char.toNat_inj]
  exact hletter

theorem isIntegerSuffix_of_mem {suffix : List Char}
    (h : suffix.map Char.toLower ∈ integerSuffixes) :
    ∀ c ∈ suffix, isIntegerSuffix c = true := by
  intro c hc
  exact isIntegerSuffix_of_toLower (Lexical.letter_of_mem_suffix _ h _ (List.mem_map_of_mem hc))

theorem lt_of_isIntegerSuffix {c : Char} (h : isIntegerSuffix c = true) : c.toNat < 0x80 := by
  simp only [isIntegerSuffix, Bool.or_eq_true, beq_iff_eq] at h
  rcases h with ((rfl | rfl) | rfl) | rfl <;> decide

/-- The number of an integer numeral is that of its digits. -/
theorem readInteger_written (hex : Bool) {front suffix : List Char}
    (hfront : ∀ c ∈ front, c.toNat < 0x80 ∧ isIntegerSuffix c = false)
    (hsuffix : suffix.map Char.toLower ∈ integerSuffixes) :
    readInteger hex (Text.ofByteChars (front ++ suffix)) =
      (if hex then hexValue (front.drop 2) else digitsValue front,
        String.ofList (suffix.map Char.toLower)) := by
  have hletters := isIntegerSuffix_of_mem hsuffix
  have hchars : Text.byteChars (Text.ofByteChars (front ++ suffix)) = front ++ suffix := by
    refine Text.byteChars_ofByteChars fun c hc => ?_
    rcases List.mem_append.1 hc with hc | hc
    · exact (hfront c hc).1
    · exact lt_of_isIntegerSuffix (hletters c hc)
  have hfrontless : front.reverse.takeWhile isIntegerSuffix = [] := by
    cases hrev : front.reverse with
    | nil => rfl
    | cons c rest =>
      have hc : c ∈ front := by
        rw [← List.mem_reverse, hrev]
        exact List.mem_cons_self
      exact List.takeWhile_cons_of_neg (by simp [(hfront c hc).2])
  have htaken : ((front ++ suffix).reverse.takeWhile isIntegerSuffix).reverse = suffix := by
    rw [List.reverse_append, List.takeWhile_append_of_pos fun c hc =>
      hletters c (List.mem_reverse.1 hc), hfrontless,
      List.append_nil, List.reverse_reverse]
  simp only [readInteger, hchars, htaken, List.length_append, Nat.add_sub_cancel,
    List.take_left, hexValue]

theorem digit_plain {c : Char} (h : c.isDigit = true) : c.toNat < 0x80 ∧
    isIntegerSuffix c = false := by
  have hle := (Number.toNat_digit h).2
  refine ⟨by omega, ?_⟩
  by_contra hletter
  rw [Bool.not_eq_false] at hletter
  simp only [isIntegerSuffix, Bool.or_eq_true, beq_iff_eq] at hletter
  rcases hletter with ((rfl | rfl) | rfl) | rfl
  all_goals exact absurd hle (by decide)

theorem hexDigit_plain {c : Char} (h : Lexical.isHexDigit c.toNat = true) : c.toNat < 0x80 ∧
    isIntegerSuffix c = false := by
  refine ⟨Lexical.lt_of_isHexDigit h, ?_⟩
  by_contra hletter
  rw [Bool.not_eq_false] at hletter
  simp only [isIntegerSuffix, Bool.or_eq_true, beq_iff_eq] at hletter
  rcases hletter with ((rfl | rfl) | rfl) | rfl
  all_goals exact absurd h (by decide)

end Integers

section HexDigits

variable {letter : Char} {digits suffix : List Char}

/-- Before its suffix a hexadecimal numeral has no letter of one. -/
theorem hex_front (hletter : letter = 'x' ∨ letter = 'X') (h : AllHexDigits digits) :
    ∀ c ∈ '0' :: letter :: digits, c.toNat < 0x80 ∧ isIntegerSuffix c = false := by
  intro c hc
  rcases List.mem_cons.1 hc with rfl | hc
  · decide
  · rcases List.mem_cons.1 hc with rfl | hc
    · rcases hletter with rfl | rfl <;> decide
    · exact hexDigit_plain (h c hc)

theorem hex_ascii (hletter : letter = 'x' ∨ letter = 'X') (h : AllHexDigits digits)
    (hsuffix : suffix.map Char.toLower ∈ integerSuffixes) :
    ∀ c ∈ '0' :: letter :: (digits ++ suffix), c.toNat < 0x80 := by
  intro c hc
  have hparts : c ∈ '0' :: letter :: digits ∨ c ∈ suffix := by simpa [or_assoc] using hc
  rcases hparts with hc | hc
  · exact (hex_front hletter h c hc).1
  · exact lt_of_isIntegerSuffix (isIntegerSuffix_of_mem hsuffix c hc)

/-- The hexadecimal digits of numbers below sixteen. -/
theorem digitChar_cases : ∀ d < 16, Lexical.isHexDigit (Nat.digitChar d).toNat = true ∧
    hexDigit (Nat.digitChar d) = d := by
  decide

/-- The hexadecimal digits of a number are read as the number. -/
theorem hexValue_toDigits (n : Nat) : hexValue (Nat.toDigits 16 n) = n := by
  induction n using Nat.strongRecOn with
  | ind n ih =>
    rw [Nat.toDigits_eq_if (by decide)]
    split
    · rename_i hlt
      simp [hexValue, (digitChar_cases n hlt).2]
    · rename_i hge
      have hprefix := ih (n / 16) (by omega)
      rw [hexValue] at hprefix ⊢
      rw [List.foldl_append, hprefix, List.foldl_cons, List.foldl_nil,
        (digitChar_cases _ (Nat.mod_lt n (by decide))).2]
      omega

theorem isHexDigit_toDigits {n : Nat} {c : Char} (h : c ∈ Nat.toDigits 16 n) :
    Lexical.isHexDigit c.toNat = true := by
  induction n using Nat.strongRecOn with
  | ind n ih =>
    rw [Nat.toDigits_eq_if (by decide)] at h
    split at h
    · rename_i hlt
      rw [List.mem_singleton.1 h]
      exact (digitChar_cases n hlt).1
    · rename_i hge
      rcases List.mem_append.1 h with h | h
      · exact ih (n / 16) (by omega) h
      · rw [List.mem_singleton.1 h]
        exact (digitChar_cases _ (Nat.mod_lt n (by decide))).1

/-- Zeros in front count nothing. -/
theorem hexValue_zeros (z : Nat) (cs : List Char) :
    hexValue (List.replicate z '0' ++ cs) = hexValue cs := by
  induction z with
  | zero => rfl
  | succ z ih => exact ih

/-- A small hexadecimal digit and its capital have one value. -/
theorem hexDigit_toLower (c : Char) : hexDigit c.toLower = hexDigit c := by
  rcases Lexical.toLower_cases c with h | ⟨hlow, hhigh, h⟩
  · rw [h]
  · have hdigit : c.isDigit = false := by
      rw [Bool.eq_false_iff]
      intro hd
      have := (Number.toNat_digit hd).2
      omega
    have hdigit' : c.toLower.isDigit = false := by
      rw [Bool.eq_false_iff]
      intro hd
      have := (Number.toNat_digit hd).2
      omega
    have htwice : c.toLower.toLower = c.toLower := by
      rcases Lexical.toLower_cases c.toLower with h' | ⟨-, hhigh', -⟩
      · exact h'
      · omega
    simp only [hexDigit, hdigit, hdigit', htwice, Bool.false_eq_true, if_false]

theorem hexValue_toLower (cs : List Char) : hexValue (cs.map Char.toLower) = hexValue cs := by
  rw [hexValue, List.foldl_map]
  simp only [hexDigit_toLower]
  rfl

/-- A letter whose small form is a hexadecimal digit is one. -/
theorem isHexDigit_of_toLower {c : Char} (h : Lexical.isHexDigit c.toLower.toNat = true) :
    Lexical.isHexDigit c.toNat = true := by
  rcases Lexical.toLower_cases c with hsame | ⟨hlow, hhigh, hshift⟩
  · rwa [hsame] at h
  · simp only [Lexical.isHexDigit, Text.isAsciiDigit, Bool.or_eq_true, Bool.and_eq_true,
      decide_eq_true_eq] at h ⊢
    omega

end HexDigits

section Points

variable {o : Lexical.Options} {p : Nat} {cs : List Char}

theorem isBadSeparator_decimalPoint (hvalid : o.fault? = none) :
    Lexical.isBadSeparator o.decimalPoint = false := by
  unfold Lexical.Options.fault? at hvalid
  split at hvalid
  · cases hvalid
  · split at hvalid
    · cases hvalid
    · rename_i hfind
      simpa using List.find?_eq_none.1 hfind o.decimalPoint (by simp)

/-- Characters of ASCII among which the decimal point does not stand. -/
def Pointless (o : Lexical.Options) (cs : List Char) : Prop :=
  ∀ c ∈ cs, c.toNat < 0x80 ∧ c.toNat ≠ o.decimalPoint

theorem Pointless.append {a b : List Char} (h : Pointless o a) (h' : Pointless o b) :
    Pointless o (a ++ b) := by
  intro c hc
  rcases List.mem_append.1 hc with hc | hc
  · exact h c hc
  · exact h' c hc

theorem Pointless.head_ne (h : Pointless o cs) :
    ∀ b ∈ Text.ofByteChars cs, (Text.encode o.decimalPoint).head? ≠ some b := by
  intro b hb
  obtain ⟨c, hc, rfl⟩ := List.mem_map.1 hb
  exact Text.head_encode_ne (h c hc).1 (h c hc).2

/-- No digit and no letter is a decimal point. -/
theorem pointless_of_bad (hvalid : o.fault? = none)
    (h : ∀ c ∈ cs, c.toNat < 0x80 ∧ Lexical.isBadSeparator c.toNat = true) : Pointless o cs := by
  refine fun c hc => ⟨(h c hc).1, fun heq => ?_⟩
  have hbad := (h c hc).2
  rw [heq, isBadSeparator_decimalPoint hvalid] at hbad
  cases hbad

theorem isBadSeparator_digit {c : Char} (h : c.isDigit = true) :
    Lexical.isBadSeparator c.toNat = true := by
  have hall : ∀ n < 58, 48 ≤ n → Lexical.isBadSeparator n = true := by decide +kernel
  obtain ⟨hlow, hhigh⟩ := Number.toNat_digit h
  exact hall _ (by omega) hlow

theorem pointless_digits (hvalid : o.fault? = none) (h : AllDigits cs) : Pointless o cs :=
  pointless_of_bad hvalid fun c hc => ⟨(digit_plain (h c hc)).1, isBadSeparator_digit (h c hc)⟩

theorem pointless_letter (hvalid : o.fault? = none) {c : Char} (h : c = 'e' ∨ c = 'E') :
    Pointless o [c] := by
  refine pointless_of_bad hvalid fun x hx => ?_
  rw [List.mem_singleton] at hx
  rw [hx]
  rcases h with rfl | rfl
  · exact ⟨by decide, by decide +kernel⟩
  · exact ⟨by decide, by decide +kernel⟩

/-- In an exponent only the sign can be the decimal point. -/
theorem pointless_power (hvalid : o.fault? = none) {power : Option Power}
    (hproper : ∀ p ∈ power, p.Proper)
    (hsign : ∀ p ∈ power, ∀ c ∈ p.sign, c.toNat ≠ o.decimalPoint) :
    Pointless o (powerChars power) := by
  cases power with
  | none => exact nofun
  | some q =>
    have hq := hproper q rfl
    refine (pointless_letter hvalid hq.letter).append
      (Pointless.append (fun c hc => ?_) (pointless_digits hvalid hq.digits))
    have hc : c ∈ q.sign := by simpa using hc
    refine ⟨?_, hsign q rfl c hc⟩
    rcases hq.sign c hc with rfl | rfl <;> decide

end Points

section Bodies

variable {o : Lexical.Options} {whole part : List Char} {point : Text} {power : Option Power}

/-- A text with a point for the decimal point of the settings. -/
def pointed (o : Lexical.Options) (body : Text) : Text :=
  if o.decimalPoint == '.'.toNat then body
  else replaceFirst body (Text.encode o.decimalPoint) (Text.ofString ".")

/-- The decimal point is found where it is written. -/
theorem pointed_own (hwhole : Pointless o whole) (t : Text) :
    pointed o (Text.ofByteChars whole ++ (Text.encode o.decimalPoint ++ t)) =
      Text.ofByteChars (whole ++ ['.']) ++ t := by
  rw [Text.ofByteChars_append, List.append_assoc, pointed]
  split
  · rename_i hdot
    rw [eq_of_beq hdot]
    rfl
  · exact replaceFirst_behind hwhole.head_ne (Text.encode_ne_nil _)

/-- Where no decimal point stands, none is found. -/
theorem pointed_pointless {cs : List Char} (h : Pointless o cs) :
    pointed o (Text.ofByteChars cs) = Text.ofByteChars cs := by
  rw [pointed]
  split
  · rfl
  · exact replaceFirst_of_find? (Text.find?_eq_none h.head_ne (Text.encode_ne_nil _))

/-- A stray byte is not found as the replacement character. -/
theorem pointed_stray {a b : List Char} (hreplacement : o.decimalPoint = Text.replacement)
    (ha : Pointless o a) (hb : Pointless o b) (x : UInt8) :
    pointed o (Text.ofByteChars a ++ x :: Text.ofByteChars b) = Text.ofByteChars a ++
      x :: Text.ofByteChars b := by
  have hhead := hb.head_ne
  have hencode : Text.encode o.decimalPoint = [0xEF, 0xBF, 0xBD] := by
    rw [hreplacement]
    rfl
  rw [pointed, if_neg (by rw [hreplacement]; decide)]
  refine replaceFirst_of_find? ?_
  rw [Text.find?_behind ha.head_ne (Text.encode_ne_nil _)]
  have hstart : Text.startsWith (x :: Text.ofByteChars b) (Text.encode o.decimalPoint) = false := by
    rw [hencode]
    cases b with
    | nil => simp [Text.startsWith, Text.ofByteChars, List.isPrefixOf]
    | cons c b =>
      have hlt := (hb c List.mem_cons_self).1
      have hne : (0xBF : UInt8) ≠ c.toNat.toUInt8 := by
        intro h
        have hnat := congrArg UInt8.toNat h
        rw [Text.toNat_toUInt8 (by omega)] at hnat
        have hbyte : (0xBF : UInt8).toNat = 0xBF := rfl
        omega
      simp only [Text.startsWith, Text.ofByteChars, List.map_cons, List.isPrefixOf,
        Bool.and_eq_false_imp, beq_iff_eq]
      simp [hne]
  rw [Text.find?, hstart, if_neg Bool.false_ne_true,
    Text.find?_eq_none hhead (Text.encode_ne_nil _)]
  rfl

/-- The suffix of a real is taken off, and the point is looked for in the rest. -/
theorem realBody_eq (body : Text) {suffix : Option Char} (negated : Bool)
    (hsuffix : ∀ c ∈ suffix, IsRealSuffix c)
    (hlast : suffix = none → ∃ d ∈ body.byteChars.getLast?, d.isDigit = true) :
    realBody o (body ++ Text.ofByteChars suffix.toList) negated =
      (if negated then Text.ofString "-" ++ pointed o body else pointed o body,
        suffix.map Char.toLower) := by
  cases suffix with
  | none =>
    obtain ⟨d, hd, hdigit⟩ := hlast rfl
    have hd : body.byteChars.getLast? = some d := hd
    have hfilter : (some d.toLower).filter (fun c => c == 'd' || c == 'f' || c == 'm') = none := by
      have hle := (Number.toNat_digit hdigit).2
      have hsame : d.toLower = d := (Lexical.toLower_cases d).resolve_right fun h => by omega
      have hne : ∀ x ∈ ['d', 'f', 'm'], d ≠ x := by
        rintro x hx rfl
        simp only [List.mem_cons, List.not_mem_nil, or_false] at hx
        rcases hx with rfl | rfl | rfl <;> exact absurd hle (by decide)
      simp [hsame, hne]
    simp only [realBody, Option.toList_none, Text.ofByteChars, List.map_nil, List.append_nil, hd,
      Option.map_some, hfilter, Option.isSome_none, Bool.false_eq_true, if_false, Option.map_none]
    rfl
  | some c =>
    have hletter : ∀ c, IsRealSuffix c → c.toNat < 0x80 ∧
        (some c.toLower).filter (fun c => c == 'd' || c == 'f' || c == 'm') = some c.toLower := by
      intro c hc
      simp only [IsRealSuffix, List.mem_cons, List.not_mem_nil, or_false] at hc
      rcases hc with rfl | rfl | rfl | rfl | rfl | rfl <;> decide
    obtain ⟨hlt, hfilter⟩ := hletter c (hsuffix c rfl)
    have himage : Text.byteChars (body ++ Text.ofByteChars [c]) = body.byteChars ++ [c] := by
      rw [Text.byteChars_append, Text.byteChars_ofByteChars (by simpa using hlt)]
    have hdrop : (body ++ Text.ofByteChars [c]).dropLast = body := List.dropLast_concat
    simp only [realBody, Option.toList_some, himage, List.getLast?_concat, Option.map_some, hfilter,
      Option.isSome_some, if_true, hdrop]
    rfl

end Bodies

section Values

/-- The constant of a type for a numeral, if the type holds it. -/
def realConstant? (t : Ty) (n : Numeral) : Option Value :=
  match t with
  | .decimal => some (.ofDecimal (Decimal.ofNumeral n))
  | .single => n.single?.map .single
  | _ => n.double?.map .double

/-- The constant that a numeral stands for, if a type holds it. -/
def constant? (o : Options) (negated : Bool) : Written → Option Value
  | .integer digits suffix =>
    integerValue? o.integersAsDoubles negated (digitsValue digits)
      (String.ofList (suffix.map Char.toLower))
  | .hex _ digits suffix =>
    integerValue? o.integersAsDoubles negated (hexValue digits)
      (String.ofList (suffix.map Char.toLower))
  | .real whole _ part power suffix =>
    realConstant? (realType o (suffix.map Char.toLower))
      ⟨negated, digitsValue (whole ++ part), powerValue power - part.length⟩

variable {o : Options} {image body : Text} {suffix : Option Char} {negated : Bool}

/-- A constant, or the refusal of a numeral that no type holds. -/
def held (image : Text) (negated : Bool) : Option Value → Except Failure Value
  | some v => .ok v
  | none => tooLarge image negated

def numeralElement (k : Kind) (image : Text) (v : Value) : Element :=
  .constant (v.type?.getD .null) v (some ⟨k, image⟩)

theorem realValue_read {n : Numeral} (hbody : realBody o.lexical image negated = (body, suffix))
    (hread : Numeral.read? body.byteChars = some n) :
    realValue o image negated = held image negated (realConstant? (realType o suffix) n) := by
  unfold realValue realConstant?
  simp only [hbody, hread]
  cases realType o suffix <;> simp only
  case decimal => rfl
  case single => cases n.single? <;> rfl
  all_goals cases n.double? <;> rfl

theorem realValue_unread (hbody : realBody o.lexical image negated = (body, suffix))
    (hread : Numeral.read? body.byteChars = none) : ∃ detail,
    realValue o image negated = badFormat detail image := by
  unfold realValue
  simp only [hbody, hread]
  cases realType o suffix
  all_goals exact ⟨_, rfl⟩

end Values

section Reals

variable {o : Options} {whole part : List Char} {point : Text} {power : Option Power}
  {suffix : Option Char}

theorem byteChars_signed (negated : Bool) (t : Text) :
    Text.byteChars (if negated then Text.ofString "-" ++ t else t) =
      (if negated then ['-'] else []) ++ t.byteChars := by
  cases negated <;> rfl

theorem image_real : (Written.real whole point part power suffix).image =
    Text.ofByteChars whole ++ (point ++ Text.ofByteChars (part ++ powerChars power)) ++
      Text.ofByteChars suffix.toList := by
  simp [Written.image, Text.ofByteChars_append]

theorem lt_of_digits {cs : List Char} (h : AllDigits cs) : ∀ c ∈ cs, c.toNat < 0x80 :=
  fun c hc => (digit_plain (h c hc)).1

theorem lt_of_power (h : ∀ p ∈ power, p.Proper) : ∀ c ∈ powerChars power, c.toNat < 0x80 := by
  cases power with
  | none => exact nofun
  | some p =>
    have hp := h p rfl
    intro c hc
    rcases List.mem_cons.1 hc with rfl | hc
    · rcases hp.letter with heq | heq <;> rw [heq] <;> decide
    · rcases List.mem_append.1 hc with hc | hc
      · rcases hp.sign c (by simpa using hc) with rfl | rfl <;> decide
      · exact lt_of_digits hp.digits c hc

/-- A real without its suffix ends with a digit. -/
theorem last_digit (hpart : AllDigits part) (hpower : ∀ p ∈ power, p.Proper)
    (hne : part ++ powerChars power ≠ []) (t : Text) :
    ∃ d ∈ (Text.byteChars (t ++ Text.ofByteChars (part ++ powerChars power))).getLast?,
      d.isDigit = true := by
  have hlast : ∃ d ∈ (part ++ powerChars power).getLast?, d.isDigit = true := by
    cases power with
    | none =>
      have hpart' : part ++ powerChars none = part := List.append_nil part
      rw [hpart'] at hne ⊢
      exact ⟨part.getLast hne, List.getLast?_eq_some_getLast hne, hpart _ (List.getLast_mem hne)⟩
    | some p =>
      have hp := hpower p rfl
      have hsplit : part ++ powerChars (some p) =
          (part ++ p.letter :: p.sign.toList) ++ p.digits := by
        simp [powerChars, Power.chars]
      rw [hsplit, List.getLast?_append_of_ne_nil _ hp.filled]
      exact ⟨p.digits.getLast hp.filled, List.getLast?_eq_some_getLast hp.filled,
        hp.digits _ (List.getLast_mem hp.filled)⟩
  have hchars : ∀ c ∈ part ++ powerChars power, c.toNat < 0x80 := by
    intro c hc
    rcases List.mem_append.1 hc with hc | hc
    · exact lt_of_digits hpart c hc
    · exact lt_of_power hpower c hc
  rw [Text.byteChars_append, Text.byteChars_ofByteChars hchars,
    List.getLast?_append_of_ne_nil _ hne]
  exact hlast

variable (negated : Bool)

/-- A real with its point is read as it is written. -/
theorem realValue_own (hvalid : o.lexical.fault? = none) (hwhole : AllDigits whole)
    (hpart : AllDigits part) (hne : part ≠ []) (htail : Tail power suffix) :
    realValue o (Written.real whole (Text.encode o.lexical.decimalPoint) part power suffix).image
      negated =
      held (Written.real whole (Text.encode o.lexical.decimalPoint) part power suffix).image negated
        (constant? o negated (.real whole (Text.encode o.lexical.decimalPoint) part
          power suffix)) := by
  have hbody := realBody_eq (o := o.lexical)
    (Text.ofByteChars whole ++ (Text.encode o.lexical.decimalPoint ++
      Text.ofByteChars (part ++ powerChars power)))
    negated htail.suffix fun _ => by
      rw [← List.append_assoc]
      exact last_digit hpart htail.power (by simp [hne]) _
  rw [pointed_own (pointless_digits hvalid hwhole)] at hbody
  rw [image_real]
  refine realValue_read hbody ?_
  have hchars : ∀ c ∈ whole ++ ['.'] ++ (part ++ powerChars power), c.toNat < 0x80 := by
    intro c hc
    simp only [List.mem_append, List.mem_singleton] at hc
    rcases hc with (hc | rfl) | hc | hc
    · exact lt_of_digits hwhole c hc
    · decide
    · exact lt_of_digits hpart c hc
    · exact lt_of_power htail.power c hc
  rw [byteChars_signed, ← Text.ofByteChars_append, Text.byteChars_ofByteChars hchars,
    List.append_assoc whole, List.singleton_append]
  exact Numeral.read?_pointed negated hwhole hpart hne htail.power

/-- A real without a point is read as it is written if its exponent has no point for a sign. -/
theorem realValue_pointless (hvalid : o.lexical.fault? = none) (hwhole : AllDigits whole)
    (hne : whole ≠ []) (htail : Tail power suffix) (hsome : power = none → suffix ≠ none)
    (hsign : ∀ p ∈ power, ∀ c ∈ p.sign, c.toNat ≠ o.lexical.decimalPoint) :
    realValue o (Written.real whole [] [] power suffix).image negated =
      held (Written.real whole [] [] power suffix).image negated
        (constant? o negated (.real whole [] [] power suffix)) := by
  have hbody := realBody_eq (o := o.lexical) (Text.ofByteChars (whole ++ powerChars power))
    negated htail.suffix
    fun hnone => by
      rw [Text.ofByteChars_append]
      refine last_digit (nofun : AllDigits []) htail.power ?_ _
      cases power with
      | none => exact absurd hnone (hsome rfl)
      | some p => exact List.cons_ne_nil _ _
  rw [pointed_pointless ((pointless_digits hvalid hwhole).append
    (pointless_power hvalid htail.power hsign))] at hbody
  rw [image_real, List.nil_append, List.nil_append, ← Text.ofByteChars_append]
  refine realValue_read hbody ?_
  have hchars : ∀ c ∈ whole ++ powerChars power, c.toNat < 0x80 := by
    intro c hc
    rcases List.mem_append.1 hc with hc | hc
    · exact lt_of_digits hwhole c hc
    · exact lt_of_power htail.power c hc
  rw [byteChars_signed, Text.byteChars_ofByteChars hchars,
    Numeral.read?_plain negated hwhole hne fun c hc => ?_,
    Number.readExponent?_powerChars htail.power]
  · simp
  · obtain ⟨hdigit, hpoint, -⟩ := Number.head_powerChars htail.power c hc
    exact ⟨hdigit, hpoint⟩

/-- Where the sign of an exponent is the first decimal point, the numeral is not read. -/
theorem realValue_sign (hvalid : o.lexical.fault? = none) (hwhole : AllDigits whole) {p : Power}
    (htail : Tail (some p) suffix) {c : Char} (hsign : p.sign = some c)
    (hpoint : c.toNat = o.lexical.decimalPoint) :
    ∃ detail, realValue o (Written.real whole [] [] (some p) suffix).image negated =
      badFormat detail (Written.real whole [] [] (some p) suffix).image := by
  have hp := htail.power p rfl
  have hbody := realBody_eq (o := o.lexical) (Text.ofByteChars (whole ++ powerChars (some p)))
    negated htail.suffix
    fun _ => by
      rw [Text.ofByteChars_append]
      exact last_digit (nofun : AllDigits []) htail.power (List.cons_ne_nil _ _) _
  -- the point takes the place of the sign
  have hencode : Text.ofByteChars [c] = Text.encode o.lexical.decimalPoint := by
    have hlt : o.lexical.decimalPoint < 0x80 := by
      rw [← hpoint]
      rcases hp.sign c hsign with rfl | rfl <;> decide
    rw [Text.encode, if_pos hlt, ← hpoint]
    rfl
  have hsplit : Text.ofByteChars (whole ++ powerChars (some p)) =
      Text.ofByteChars (whole ++ [p.letter]) ++
        (Text.encode o.lexical.decimalPoint ++ Text.ofByteChars p.digits) := by
    rw [← hencode, ← Text.ofByteChars_append, ← Text.ofByteChars_append]
    simp [powerChars, Power.chars, hsign]
  rw [hsplit, pointed_own ((pointless_digits hvalid hwhole).append
    (pointless_letter hvalid hp.letter)), ← hsplit] at hbody
  rw [image_real, List.nil_append, List.nil_append, ← Text.ofByteChars_append]
  refine realValue_unread hbody ?_
  have hchars : ∀ c ∈ whole ++ [p.letter] ++ ['.'] ++ p.digits, c.toNat < 0x80 := by
    intro c hc
    simp only [List.mem_append, List.mem_singleton] at hc
    rcases hc with ((hc | rfl) | rfl) | hc
    · exact lt_of_digits hwhole c hc
    · exact (pointless_letter hvalid hp.letter _ List.mem_cons_self).1
    · decide
    · exact lt_of_digits hp.digits c hc
  have hletter : p.letter.isDigit = false ∧ p.letter ≠ '.' ∧ p.letter ≠ '-' ∧ p.letter ≠ '+' := by
    rcases hp.letter with heq | heq <;> rw [heq] <;> decide
  have hread : Number.readExponent? (p.letter :: '.' :: p.digits) = none := by
    have hspan : Number.spanSign ('.' :: p.digits) = (false, '.' :: p.digits) := rfl
    simp [Number.readExponent?, hspan]
  rw [byteChars_signed, ← Text.ofByteChars_append, Text.byteChars_ofByteChars hchars,
    List.append_assoc, List.append_assoc]
  exact Numeral.read?_eq_none negated hwhole (fun c hc => by cases hc; exact hletter) hread

/-- Where a stray byte stands for the point, the numeral is not read. -/
theorem realValue_stray (hvalid : o.lexical.fault? = none)
    (hreplacement : o.lexical.decimalPoint = Text.replacement)
    (hwhole : AllDigits whole) (hpart : AllDigits part) (hne : part ≠ [])
    (htail : Tail power suffix) {b : UInt8} (hb : 0x80 ≤ b.toNat) :
    ∃ detail, realValue o (Written.real whole [b] part power suffix).image negated =
      badFormat detail (Written.real whole [b] part power suffix).image := by
  have hbody := realBody_eq (o := o.lexical)
    (Text.ofByteChars whole ++ ([b] ++ Text.ofByteChars (part ++ powerChars power))) negated
      htail.suffix fun _ => by
      rw [← List.append_assoc]
      exact last_digit hpart htail.power (by simp [hne]) _
  have hrest : Pointless o.lexical (part ++ powerChars power) := by
    refine (pointless_digits hvalid hpart).append
      (pointless_power hvalid htail.power fun p hp c hc heq => ?_)
    rw [hreplacement] at heq
    rcases (htail.power p hp).sign c hc with rfl | rfl
    · exact absurd heq (by decide)
    · exact absurd heq (by decide)
  rw [List.singleton_append, pointed_stray hreplacement
    (pointless_digits hvalid hwhole) hrest] at hbody
  rw [image_real, List.singleton_append]
  refine realValue_unread hbody ?_
  have hbyte : (Char.ofNat b.toNat).toNat = b.toNat := by
    have hlt := UInt8.toNat_lt b
    rw [Char.ofNat, dif_pos (.inl (by omega))]
    rfl
  have hne : ∀ c : Char, c.toNat < 0x80 → Char.ofNat b.toNat ≠ c := by
    rintro c hc rfl
    omega
  have hchars : Text.byteChars (Text.ofByteChars whole ++
    b :: Text.ofByteChars (part ++ powerChars power)) =
      whole ++ Char.ofNat b.toNat :: (part ++ powerChars power) := by
    rw [Text.byteChars_append, Text.byteChars_ofByteChars (lt_of_digits hwhole)]
    refine congrArg _ (congrArg (Char.ofNat b.toNat :: ·) ?_)
    exact Text.byteChars_ofByteChars fun c hc => (hrest c hc).1
  rw [byteChars_signed, hchars]
  refine Numeral.read?_eq_none negated hwhole (fun c hc => ?_) ?_
  · cases hc
    refine ⟨?_, hne _ (by decide), hne _ (by decide), hne _ (by decide)⟩
    by_contra hdigit
    have hle := (Number.toNat_digit (by simpa using hdigit)).2
    omega
  · simp [Number.readExponent?, hne 'e' (by decide), hne 'E' (by decide)]

end Reals

section Numbers

variable {o : Options} {w : Written} {negated : Bool}

theorem number_integer {k : Kind} {image : Text} {n : Nat} {suffix : String} (hk : k ≠ .real)
    (hread : readInteger (k == .hex) image = (n, suffix)) :
    number o k image negated =
      (held image negated (integerValue? o.integersAsDoubles negated n suffix)).map
        (numeralElement k image) := by
  have hkind : (k == .real) = false := by simpa using hk
  simp only [number, hkind, hread, Bool.false_eq_true, if_false]
  cases integerValue? o.integersAsDoubles negated n suffix <;> rfl

theorem number_real (o : Options) (image : Text) (negated : Bool) :
    number o .real image negated = (realValue o image negated).map
      (numeralElement .real image) := by
  simp only [number, BEq.rfl, if_true]
  cases realValue o image negated <;> rfl

theorem number_malformed {image : Text} (h : ∃ detail,
    realValue o image negated = badFormat detail image) :
    ∃ detail, number o .real image negated = badFormat detail image := by
  obtain ⟨detail, h⟩ := h
  exact ⟨detail, by rw [number_real, h]; rfl⟩

/-- A numeral that is not misread has its constant or is too large, and one that is misread has no
value. -/
theorem number_written (hvalid : o.lexical.fault? = none) (hw : w.Proper o.lexical)
    (negated : Bool) :
    (¬w.Misread o.lexical → number o w.kind w.image negated =
        (held w.image negated (constant? o negated w)).map (numeralElement w.kind w.image)) ∧
      (w.Misread o.lexical → ∃ detail, number o w.kind w.image negated =
        badFormat detail w.image) := by
  cases hw with
  | @integer digits suffix hdigits hne hsuffix =>
    refine ⟨fun _ => ?_, False.elim⟩
    exact number_integer nofun (readInteger_written false (fun c hc =>
      digit_plain (hdigits c hc)) hsuffix)
  | @hex letter digits suffix hletter hdigits hne hsuffix =>
    refine ⟨fun _ => ?_, False.elim⟩
    exact number_integer (k := .hex) nofun (readInteger_written true
      (hex_front hletter hdigits) hsuffix)
  | @pointed whole part point power suffix hwhole hrequire hpoint hpart hne htail =>
    cases hpoint with
    | own =>
      refine ⟨fun _ => ?_, ?_⟩
      · exact (number_real _ _ _).trans (congrArg _
          (realValue_own negated hvalid hwhole hpart hne htail))
      · rintro (⟨hnil, -⟩ | ⟨-, hother⟩)
        · exact absurd hnil (Text.encode_ne_nil _)
        · exact absurd rfl hother
    | @stray hreplacement b hb =>
      have hmisread : (Written.real whole [b] part power suffix).Misread o.lexical := by
        refine .inr ⟨List.cons_ne_nil b [], fun h => ?_⟩
        rw [hreplacement] at h
        cases h
      exact ⟨fun h => absurd hmisread h, fun _ =>
        number_malformed (realValue_stray negated hvalid hreplacement hwhole hpart hne htail hb)⟩
  | @plain whole power suffix hwhole hne htail hsome =>
    by_cases hsign : ∃ p ∈ power, ∃ c ∈ p.sign, c.toNat = o.lexical.decimalPoint
    · refine ⟨fun h => absurd (.inl ⟨rfl, hsign⟩) h, fun _ => ?_⟩
      obtain ⟨p, rfl, c, hc, hpoint⟩ := hsign
      exact number_malformed (realValue_sign negated hvalid hwhole htail hc hpoint)
    · have hapart : ∀ p ∈ power, ∀ c ∈ p.sign, c.toNat ≠ o.lexical.decimalPoint :=
        fun p hp c hc heq => hsign ⟨p, hp, c, hc, heq⟩
      refine ⟨fun _ => ?_, ?_⟩
      · exact (number_real _ _ _).trans (congrArg _
          (realValue_pointless negated hvalid hwhole hne htail hsome hapart))
      · rintro (⟨-, h⟩ | ⟨h, -⟩)
        · exact absurd h hsign
        · exact absurd rfl h

end Numbers

/-- A numeral can be misread only where the decimal point is a sign or the replacement character. -/
theorem point_of_misread {o : Lexical.Options} {w : Written} (hw : w.Proper o) (h : w.Misread o) :
    o.decimalPoint = 0x2B ∨ o.decimalPoint = 0x2D ∨ o.decimalPoint = Text.replacement := by
  cases hw with
  | integer => exact h.elim
  | hex => exact h.elim
  | pointed _ _ hpoint _ _ _ =>
    cases hpoint with
    | own =>
      rcases h with ⟨hnil, -⟩ | ⟨-, hother⟩
      · exact absurd hnil (Text.encode_ne_nil _)
      · exact absurd rfl hother
    | stray hreplacement _ => exact .inr (.inr hreplacement)
  | plain _ _ htail _ =>
    rcases h with ⟨-, p, hp, c, hc, hpoint⟩ | ⟨hne, -⟩
    · rcases (htail.power p hp).sign c hc with rfl | rfl
      · exact .inl hpoint.symm
      · exact .inr (.inl hpoint.symm)
    · exact absurd rfl hne

/-- Every numeral that is read from a text has the constant of its digits, its exponent and its
suffix, or is too large for it; unless it is misread, and then its form is refused. A numeral is
misread only where the decimal point is a sign or the replacement character. -/
theorem numerals_valued {o : Options} (hvalid : o.lexical.fault? = none) {text : Text} {t : Token}
    (ht : t ∈ ((Lexical.Lexer.ofOptions o.lexical).tokenize text).1)
    (hkind : t.kind = .integer ∨ t.kind = .hex ∨ t.kind = .real) (negated : Bool) :
    ∃ w : Written, w.Proper o.lexical ∧ w.kind = t.kind ∧ w.image = t.image ∧
      (¬w.Misread o.lexical → number o t.kind t.image negated =
        (held t.image negated (constant? o negated w)).map (numeralElement t.kind t.image)) ∧
      (w.Misread o.lexical → ∃ detail, number o t.kind t.image negated = badFormat detail t.image) ∧
      (w.Misread o.lexical → o.lexical.decimalPoint = 0x2B ∨ o.lexical.decimalPoint = 0x2D ∨
        o.lexical.decimalPoint = Text.replacement) := by
  obtain ⟨w, hw, hk, himage⟩ := Lexical.exists_written ht hkind
  have hnumber := number_written hvalid hw negated
  rw [hk, himage] at hnumber
  exact ⟨w, hw, hk, himage, hnumber.1, hnumber.2, point_of_misread hw⟩

/-- Settings with the minus sign for the decimal point. -/
def dashed : Options := { lexical := { decimalPoint := 0x2D } }

theorem fault?_dashed : dashed.lexical.fault? = none := by decide +kernel

/-- A real with a minus sign for its point and another one in its exponent, read with a sign. -/
theorem numerals_valued_dashed : dashed.lexical.fault? = none ∧
    ⟨.real, Text.ofString "1-5e-3f", {}⟩ ∈
      ((Lexical.Lexer.ofOptions dashed.lexical).tokenize (Text.ofString "1-5e-3f")).1 ∧
    ∃ w : Written, w.Proper dashed.lexical ∧ w.kind = .real ∧ w.image = Text.ofString "1-5e-3f" ∧
      (¬w.Misread dashed.lexical → number dashed .real (Text.ofString "1-5e-3f") true =
        (held (Text.ofString "1-5e-3f") true (constant? dashed true w)).map
          (numeralElement .real (Text.ofString "1-5e-3f"))) ∧
      (w.Misread dashed.lexical → ∃ detail,
        number dashed .real (Text.ofString "1-5e-3f") true =
          badFormat detail (Text.ofString "1-5e-3f")) ∧
      (w.Misread dashed.lexical → dashed.lexical.decimalPoint = 0x2B ∨
        dashed.lexical.decimalPoint = 0x2D ∨
        dashed.lexical.decimalPoint = Text.replacement) := by
  have ht : ⟨.real, Text.ofString "1-5e-3f", {}⟩ ∈
      ((Lexical.Lexer.ofOptions dashed.lexical).tokenize (Text.ofString "1-5e-3f")).1 := by
    rw [Lexical.tokenize_numeral (k := .real) fault?_dashed (by decide) (by decide)
      (by decide +kernel)]
    exact List.mem_cons_self
  exact ⟨fault?_dashed, ht, numerals_valued fault?_dashed ht (.inr (.inr rfl)) true⟩

/-- The sign of an exponent is taken for the decimal point where no point stands before it: `1e-5`
has no value. -/
theorem number_dashed_malformed : dashed.lexical.fault? = none ∧
    ((Lexical.Lexer.ofOptions dashed.lexical).tokenize (Text.ofString "1e-5")).1 =
      [⟨.real, Text.ofString "1e-5", {}⟩] ∧
    number dashed .real (Text.ofString "1e-5") false =
      badFormat "numeric literal 1e-5: strconv.ParseFloat: parsing \"1e.5\": invalid syntax"
        (Text.ofString "1e-5") := by
  refine ⟨fault?_dashed, ?_, by rfl⟩
  rw [Lexical.tokenize_numeral (k := .real) fault?_dashed (by decide) (by decide)
    (by decide +kernel)]

end Build

end Formulary
