import Formulary.Proofs.Lexical.Negated

/-!
# A parenthesis as the decimal point

Where an opening parenthesis is the decimal point, `-(t)` starts with a minus sign and a real if `t`
starts with a digit. Behind the real come the tokens of `t` that come behind its first one, or a
token that cannot stand behind a literal.
-/

namespace Formulary

open Text (Glyph closing)

namespace Lexical

section Kinds

def Lexeme.kind? : Lexeme → Option Kind
  | .token t => some t.kind
  | .stray .. => none

/-- The kinds of the tokens of some characters. -/
def Lexer.kinds (l : Lexer) (gs : List Glyph) : List Kind :=
  (l.lexemes {} gs).1.filterMap Lexeme.kind?

variable {l : Lexer}

theorem kinds_lexemes (p q : Place) (gs : List Glyph) :
    (l.lexemes p gs).1.filterMap Lexeme.kind? = (l.lexemes q gs).1.filterMap Lexeme.kind? := by
  have hkind : Lexeme.kind? ∘ Lexeme.moved nowhere = Lexeme.kind? := by
    funext x
    cases x <;> rfl
  rw [← hkind, ← List.filterMap_map, ← List.filterMap_map, bare_lexemes p q]

/-- The kind of the first token, and those behind it. -/
theorem kinds_of_tokenAt? {g : Glyph} {rest : List Glyph} {k : Kind} {n : Nat}
    (hblank : isBlank g.code = false) (h : l.tokenAt? (g :: rest) = some (k, n)) :
    l.kinds (g :: rest) = k :: l.kinds (rest.drop (n - 1)) := by
  rw [Lexer.kinds, Lexer.lexemes, if_neg (by simp [hblank]), h]
  exact congrArg (k :: ·) (kinds_lexemes _ _ _)

theorem kinds_tokenize (text : Text) : (l.tokenize text).1.map (·.kind) = l.kinds text.glyphs := by
  simp only [Lexer.tokenize, Lexer.kinds, read_eq, Lexer.outline, List.map_filterMap]
  refine List.filterMap_congr fun x _ => ?_
  cases x <;> rfl

theorem kinds_append {o : Options} (hvalid : o.fault? = none) (gs : List Glyph) :
    (Lexer.ofOptions o).kinds (gs ++ [closing]) = (Lexer.ofOptions o).kinds gs ++
      [Kind.parenClose] := by
  rw [Lexer.kinds, lexemes_append hvalid, List.filterMap_append]
  rfl

end Kinds

section Unspelled

variable {o : Options}

/-- Characters that no fixed string starts with: digits, the letters of suffixes of integers, and
the second sign of a hexadecimal numeral with a digit behind it. -/
def Unspelled : List Nat → Prop
  | [] => False
  | c :: cs => c ∈ "0123456789uUlL".toList.map Char.toNat ∨
    c ∈ "xX".toList.map Char.toNat ∧ ∀ d ∈ cs.head?,
      d ∈ "0123456789abcdefABCDEF".toList.map Char.toNat

theorem commonEntries_unspelled : ∀ e ∈ commonEntries,
    (∀ c ∈ "0123456789uUlL".toList.map Char.toNat, e.codes.head?.map e.shade ≠ some (e.shade c)) ∧
      ∀ c ∈ "xX".toList.map Char.toNat, e.codes.head?.map e.shade = some (e.shade c) →
        2 ≤ e.codes.length ∧ ∀ d ∈ "0123456789abcdefABCDEF".toList.map Char.toNat,
          (e.codes.drop 1).head?.map e.shade ≠ some (e.shade d) := by
  rw [Entry.shade_direct]
  decide +kernel

theorem isBadSeparator_separator (hvalid : o.fault? = none) :
    isBadSeparator o.separator = false := by
  unfold Options.fault? at hvalid
  split at hvalid
  · cases hvalid
  · split at hvalid
    · cases hvalid
    · rename_i hfind
      simpa using List.find?_eq_none.1 hfind o.separator (by simp)

theorem kindOf?_unspelled (hvalid : o.fault? = none) {codes : List Nat} (h : Unspelled codes) :
    (Lexer.ofOptions o).dictionary.kindOf? codes = none := by
  cases codes with
  | nil => cases h
  | cons c cs =>
    have hnone : (Lexer.ofOptions o).dictionary.find? (·.covers (c :: cs)) = none := by
      rw [List.find?_eq_none, dictionary_ofOptions]
      intro e he hcovers
      rcases List.mem_cons.1 he with rfl | he
      · -- A letter or a digit is no separator.
        obtain ⟨d, hd, hlow, hhigh⟩ := Text.codes_encode o.separator
        simp only [Entry.covers, hd, Bool.false_eq_true, if_false, beq_iff_eq,
          List.cons.injEq] at hcovers
        obtain ⟨rfl, -⟩ := hcovers
        have hchar : d ∈ ("0123456789uUlL" ++ "xX").toList.map Char.toNat := by
          rw [String.toList_append, List.map_append, List.mem_append]
          exact h.imp id And.left
        have hbad : ∀ d ∈ ("0123456789uUlL" ++ "xX").toList.map Char.toNat, d < 0x80 ∧
            isBadSeparator d = true := by
          decide +kernel
        obtain ⟨hlt, hbad⟩ := hbad d hchar
        rcases Nat.lt_or_ge o.separator 0x80 with hsep | hsep
        · rw [hlow hsep, isBadSeparator_separator hvalid] at hbad
          cases hbad
        · have := hhigh hsep
          omega
      · obtain ⟨hplain, hhex⟩ := commonEntries_unspelled e he
        have hlength := length_eq_of_covers hcovers
        rw [Entry.covers_iff] at hcovers
        have hhead : e.codes.head?.map e.shade = some (e.shade c) := by
          rw [← List.head?_map, hcovers]
          rfl
        rcases h with h | ⟨h, hnext⟩
        · exact hplain c h hhead
        · obtain ⟨htwo, hsecond⟩ := hhex c h hhead
          cases cs with
          | nil =>
            rw [hlength] at htwo
            simp at htwo
          | cons d cs =>
            refine hsecond d (hnext d rfl) ?_
            rw [← List.head?_map, List.map_drop, hcovers]
            rfl
    rw [Dictionary.kindOf?, hnone]
    rfl

theorem Unspelled.take {codes : List Nat} (h : Unspelled codes) (n : Nat) :
    Unspelled (codes.take (n + 1)) := by
  cases codes with
  | nil => exact h
  | cons c cs =>
    refine h.imp id fun ⟨hc, hnext⟩ => ⟨hc, fun d hd => hnext d ?_⟩
    cases n with
    | zero => cases hd
    | succ n =>
      cases cs with
      | nil => cases hd
      | cons c' cs => exact hd

theorem longest?_unspelled (hvalid : o.fault? = none) {gs : List Glyph}
    (h : Unspelled (gs.map (·.code))) :
    (Lexer.ofOptions o).dictionary.longest? gs = none := by
  have hup : ∀ (codes : List Nat) (n : Nat), Unspelled codes →
      (Lexer.ofOptions o).dictionary.longestUpTo codes n = none := by
    intro codes n hcodes
    induction n with
    | zero => rfl
    | succ n ih =>
      rw [Dictionary.longestUpTo, kindOf?_unspelled hvalid (hcodes.take n)]
      exact ih
  obtain ⟨w, hw⟩ := Nat.exists_eq_add_of_le' (width_pos o)
  refine hup _ _ ?_
  rw [List.map_take, hw]
  exact h.take w

end Unspelled

section Numbers

variable {o : Options} {g : Glyph} {gs : List Glyph}

/-- How much an exponent and the suffix of a real take. -/
def ending (gs : List Glyph) : Nat :=
  (exponent gs).getD 0 + (realSuffix (gs.drop ((exponent gs).getD 0))).getD 0

theorem exists_of_one {p : Nat → Bool} {n : Nat} (h : one p gs = some n) :
    ∃ g rest, gs = g :: rest ∧ p g.code = true ∧ n = 1 := by
  cases gs with
  | nil => cases h
  | cons g gs =>
    simp only [one] at h
    split at h
    · rename_i hp
      cases h
      exact ⟨g, gs, rfl, hp, rfl⟩
    · cases h

theorem exponent_pos {n : Nat} (h : exponent gs = some n) : 0 < n := by
  obtain ⟨m, hm, h⟩ := Option.bind_eq_some_iff.1 h
  obtain ⟨k, -, rfl⟩ := Option.map_eq_some_iff.1 h
  obtain ⟨-, -, -, -, rfl⟩ := exists_of_one hm
  omega

theorem scanReal_point (hg : g.code = 0x28) (hpoint : o.decimalPoint = 0x28)
    (hrequire : o.requireDigits = false)
    (hdigits : run Text.isAsciiDigit gs ≠ 0) : scanReal o (g :: gs) =
      some (run Text.isAsciiDigit gs + ending (gs.drop (run Text.isAsciiDigit gs)) + 1) := by
  have hopening : run Text.isAsciiDigit (g :: gs) = 0 := by rw [run, hg]; rfl
  have hone : one (· == o.decimalPoint) (g :: gs) = some 1 := by simp [one, hg, hpoint]
  have hparts : parts [many1 Text.isAsciiDigit, optional exponent, optional realSuffix] gs =
      some (run Text.isAsciiDigit gs + ending (gs.drop (run Text.isAsciiDigit gs))) := by
    simp [parts, both, many1, hdigits, optional, ending]
  simp only [scanReal, hopening, List.drop_zero, hone, hrequire, Option.isSome_some,
    if_true, Bool.and_false, Bool.false_eq_true, if_false, List.drop_succ_cons, hparts,
    Option.map_some]
  congr 1
  omega

/-- Without a decimal point, a real is a numeral with an exponent or a suffix. -/
theorem scanReal_plain (hdigits : run Text.isAsciiDigit gs ≠ 0)
    (hpoint : one (· == o.decimalPoint) (gs.drop (run Text.isAsciiDigit gs)) = none) :
    scanReal o gs = if ending (gs.drop (run Text.isAsciiDigit gs)) = 0 then none
      else some (run Text.isAsciiDigit gs + ending (gs.drop (run Text.isAsciiDigit gs))) := by
  simp only [scanReal, hpoint, Option.isSome_none, Bool.false_eq_true, if_false,
    beq_iff_eq, hdigits]
  generalize gs.drop (run Text.isAsciiDigit gs) = rest
  cases hexponent : exponent rest with
  | some n =>
    have hpos := exponent_pos hexponent
    have hne : ending rest ≠ 0 := by
      rw [ending, hexponent, Option.getD_some]
      omega
    rw [if_neg hne]
    simp [either, both, optional, hexponent, ending]
  | none =>
    cases hsuffix : realSuffix rest with
    | some n =>
      obtain ⟨-, -, -, -, rfl⟩ := exists_of_one hsuffix
      simp [either, both, hexponent, hsuffix, ending]
    | none => simp [either, both, hexponent, hsuffix, ending]

theorem both_mark_eq_none {c : Char} (hc : g.code ≠ c.toNat) (t : Scanner) :
    both (mark c) t (g :: gs) = none := by
  have hmark : mark c (g :: gs) = none := if_neg (by simpa using hc)
  rw [both, hmark]
  rfl

/-- Which scanners count where no quote and no number sign stands. -/
theorem longestScan_unquoted (h : g.code ≠ 0x22 ∧ g.code ≠ 0x27 ∧ g.code ≠ 0x23) :
    longestScan (scanners o) (g :: gs) =
      longestScan [(.hex, scanHex), (.real, scanReal o), (.integer, scanInteger),
        (.identifier, scanIdentifier)]
        (g :: gs) := by
  have hstring : scanString (g :: gs) = none := both_mark_eq_none h.1 _
  have hchar : scanChar (g :: gs) = none := both_mark_eq_none h.2.1 _
  have hspan : scanTimeSpan (g :: gs) = none := both_mark_eq_none h.2.2 _
  have hdate : scanDateTime (g :: gs) = none := both_mark_eq_none h.2.2 _
  simp only [longestScan, longer, scanners, List.foldl_cons, List.foldl_nil, hstring,
    hchar, hspan, hdate]

/-- A scanned token is the one at the front if no fixed string is longer. -/
theorem tokenAt?_of_longestScan {k : Kind} {n : Nat} (h : longestScan (scanners o) gs = some (k, n))
    (hlong : ∀ k' m, (Lexer.ofOptions o).dictionary.longest? gs = some (k', m) → m < n) :
    (Lexer.ofOptions o).tokenAt? gs = some (k, n) := by
  have hscan : longestScan (scanners (Lexer.ofOptions o).options) gs = some (k, n) := h
  unfold Lexer.tokenAt?
  rw [hscan]
  cases hfixed : (Lexer.ofOptions o).dictionary.longest? gs with
  | none => rfl
  | some fixed => exact if_pos (hlong _ _ hfixed)

/-- A parenthesis before digits is part of a real. -/
theorem tokenAt?_point (hvalid : o.fault? = none) (hg : g.code = 0x28)
    (hpoint : o.decimalPoint = 0x28)
    (hrequire : o.requireDigits = false) (hdigits : run Text.isAsciiDigit gs ≠ 0) :
    (Lexer.ofOptions o).tokenAt? (g :: gs) =
      some (.real, run Text.isAsciiDigit gs + ending (gs.drop (run Text.isAsciiDigit gs)) + 1) := by
  have hreal := scanReal_point hg hpoint hrequire hdigits
  refine tokenAt?_of_longestScan ?_ fun k' m h => ?_
  · refine (longestScan_unquoted (by omega)).trans ?_
    obtain ⟨code, bytes⟩ := g
    cases hg
    have hhex : scanHex (⟨0x28, bytes⟩ :: gs) = none := rfl
    have hinteger : scanInteger (⟨0x28, bytes⟩ :: gs) = none := rfl
    have hname : scanIdentifier (⟨0x28, bytes⟩ :: gs) = none := rfl
    simp [longestScan, longer, hreal, hhex, hinteger, hname]
  · cases h.symm.trans (longest?_opening hvalid hg gs)
    omega

/-- What a digit is, and what it is not. -/
theorem isAsciiDigit_cases {c : Nat} (h : Text.isAsciiDigit c = true) :
    c ∈ "0123456789uUlL".toList.map Char.toNat ∧ (c ≠ 0x22 ∧ c ≠ 0x27 ∧ c ≠ 0x23) ∧ c ≠ 0x40 ∧
      isNameStart c = false ∧
      isBlank c = false := by
  have hall : ∀ c < 0x3A, Text.isAsciiDigit c = true → c ∈ "0123456789uUlL".toList.map Char.toNat ∧
      (c ≠ 0x22 ∧ c ≠ 0x27 ∧ c ≠ 0x23) ∧ c ≠ 0x40 ∧ isNameStart c = false ∧
        isBlank c = false := by decide
  refine hall c ?_ h
  simp only [Text.isAsciiDigit, Bool.and_eq_true, decide_eq_true_eq] at h
  omega

theorem scanIdentifier_eq (hg : g.code ≠ 0x40) :
    scanIdentifier (g :: gs) = if isNameStart g.code then
      some (run isNamePart gs + 1) else none := by
  have hmark : mark '@' (g :: gs) = none := if_neg (by simpa using hg)
  cases h : isNameStart g.code <;>
    simp [scanIdentifier, parts, both, optional, hmark, one, h, many, Nat.add_comm]

/-- Digits without a decimal point and without letters of an integer are a number with its exponent
and suffix. -/
theorem tokenAt?_digits (hvalid : o.fault? = none) (hdigits : run Text.isAsciiDigit (g :: gs) ≠ 0)
    (hpoint : one (· == o.decimalPoint) ((g :: gs).drop (run Text.isAsciiDigit (g :: gs))) = none)
    (hsuffix : integerSuffix ((g :: gs).drop (run Text.isAsciiDigit (g :: gs))) = some 0)
    (hhex : scanHex (g :: gs) = none) : ∃ k, (k = .real ∨ k = .integer) ∧
    (Lexer.ofOptions o).tokenAt? (g :: gs) =
      some (k, run Text.isAsciiDigit (g :: gs) + ending
        ((g :: gs).drop (run Text.isAsciiDigit (g :: gs)))) := by
  have hdigit : Text.isAsciiDigit g.code = true := by
    by_contra h
    exact hdigits (if_neg h)
  have hinteger : scanInteger (g :: gs) = some (run Text.isAsciiDigit (g :: gs)) := by
    simp [scanInteger, both, many1, hdigits, hsuffix]
  have hreal := scanReal_plain hdigits hpoint
  obtain ⟨hmem, hunquoted, hat, hstart, -⟩ := isAsciiDigit_cases hdigit
  have hname : scanIdentifier (g :: gs) = none := by
    rw [scanIdentifier_eq hat, hstart]
    rfl
  generalize (g :: gs).drop (run Text.isAsciiDigit (g :: gs)) = rest at hreal ⊢
  generalize run Text.isAsciiDigit (g :: gs) = d at hreal hinteger hdigits ⊢
  have hscan : ∃ k, (k = .real ∨ k = .integer) ∧
      longestScan (scanners o) (g :: gs) = some (k, d + ending rest) := by
    rw [longestScan_unquoted hunquoted]
    by_cases hending : ending rest = 0
    · rw [if_pos hending] at hreal
      exact ⟨.integer,
        .inr rfl, by simp [longestScan, longer, hreal, hhex, hinteger, hname, hending]; omega⟩
    · rw [if_neg hending] at hreal
      have hpos : 0 < d + ending rest := by omega
      exact ⟨.real, .inl rfl, by simp [longestScan, longer, hreal, hhex, hinteger, hname, hpos]⟩
  obtain ⟨k, hk, hscan⟩ := hscan
  refine ⟨k, hk, tokenAt?_of_longestScan hscan fun k' m h => ?_⟩
  have hnone : (Lexer.ofOptions o).dictionary.longest? (g :: gs) = none :=
    longest?_unspelled hvalid (.inl hmem)
  cases h.symm.trans hnone

/-- The letters of an integer are no suffix of a real, and start an identifier where they stand
alone. -/
theorem tokenAt?_letter (hvalid : o.fault? = none) (hpoint : o.decimalPoint = 0x28)
    (hunspelled : Unspelled ((g :: gs).map (·.code)))
    (hletter : g.code ∈ "uUlLxX".toList.map Char.toNat) :
    (Lexer.ofOptions o).tokenAt? (g :: gs) = some (.identifier, run isNamePart gs + 1) ∧
      ending (g :: gs) = 0 ∧
      isBlank g.code = false ∧ one (· == o.decimalPoint) (g :: gs) = none := by
  have hall : ∀ c ∈ "uUlLxX".toList.map Char.toNat,
    ((c ≠ 0x22 ∧ c ≠ 0x27 ∧ c ≠ 0x23) ∧ c ≠ 0x40 ∧ c ≠ 0x28 ∧ c ≠ 0x30 ∧
      isBlank c = false) ∧ isNameStart c = true ∧ Text.isAsciiDigit c = false ∧
        isEither 'e' c = false ∧
      (isEither 'd' c || isEither 'f' c || isEither 'm' c) = false := by decide
  obtain ⟨⟨hunquoted, hat, hopening, hzero, hblank⟩, hstart, hdigit, he, hsuffix⟩ := hall _ hletter
  have hrun : run Text.isAsciiDigit (g :: gs) = 0 := if_neg (by simp [hdigit])
  have hone : one (· == o.decimalPoint) (g :: gs) = none :=
    if_neg (by simpa [hpoint] using hopening)
  have hhex : scanHex (g :: gs) = none := by
    have hmark : mark '0' (g :: gs) = none := if_neg (by simpa using hzero)
    rw [scanHex, parts, List.foldr, both, hmark]
    rfl
  have hreal : scanReal o (g :: gs) = none := by simp [scanReal, hrun, hone]
  have hinteger : scanInteger (g :: gs) = none := by simp [scanInteger, both, many1, hrun]
  have hname : scanIdentifier (g :: gs) = some (run isNamePart gs + 1) := by
    rw [scanIdentifier_eq hat, hstart]
    rfl
  have hexponent : exponent (g :: gs) = none := by simp [exponent, parts, both, one, he]
  have hreal' : realSuffix (g :: gs) = none := if_neg (by simp only [hsuffix]; decide)
  refine ⟨tokenAt?_of_longestScan ?_ fun k' m h => ?_, ?_, hblank, hone⟩
  · rw [longestScan_unquoted hunquoted]
    simp [longestScan, longer, hhex, hreal, hinteger, hname]
  · cases h.symm.trans (longest?_unspelled hvalid hunspelled)
  · simp [ending, hexponent, hreal']

theorem ending_append (gs : List Glyph) : ending (gs ++ [closing]) = ending gs := by
  have hle : (exponent gs).getD 0 ≤ gs.length := by
    cases h : exponent gs with
    | none => exact Nat.zero_le _
    | some n => exact blind_exponent.bounded gs n h
  rw [ending, ending, blind_exponent.append, blind_realSuffix.drop hle]

theorem ending_le (gs : List Glyph) : ending gs ≤ gs.length :=
  (blind_both (blind_optional blind_exponent) (blind_optional blind_realSuffix)).bounded gs _ rfl

/-- A suffix of an integer starts with one of its letters. -/
theorem letter_of_integer (h : integerSuffix gs ≠ some 0) :
    ∃ g rest, gs = g :: rest ∧ g.code ∈ "uUlL".toList.map Char.toNat := by
  cases gs with
  | nil => exact absurd rfl h
  | cons g rest =>
    refine ⟨g, rest, rfl, ?_⟩
    by_contra hmem
    obtain ⟨hu, hl⟩ : isEither 'u' g.code = false ∧ isEither 'l' g.code = false := by
      simpa [isEither, not_or, and_assoc] using hmem
    exact h (by simp [integerSuffix, optional, either, both, one, hu, hl])

/-- What a hexadecimal numeral starts with. -/
theorem letter_of_hex {n : Nat} (h : scanHex gs = some n) : ∃ zero g d rest,
    gs = zero :: g :: d :: rest ∧
    run Text.isAsciiDigit gs = 1 ∧ g.code ∈ "xX".toList.map Char.toNat ∧
    d.code ∈ "0123456789abcdefABCDEF".toList.map Char.toNat := by
  obtain ⟨m, hzero, h⟩ := Option.bind_eq_some_iff.1 h
  obtain ⟨zero, gs, rfl, hcode, rfl⟩ := exists_of_one hzero
  obtain ⟨m, h, -⟩ := Option.map_eq_some_iff.1 h
  obtain ⟨m, hx, h⟩ := Option.bind_eq_some_iff.1 h
  obtain ⟨g, gs', hgs, hletter, rfl⟩ := exists_of_one hx
  obtain rfl : gs = g :: gs' := hgs
  obtain ⟨m, h, -⟩ := Option.map_eq_some_iff.1 h
  obtain ⟨m, hhex, -⟩ := Option.bind_eq_some_iff.1 h
  have hletter : g.code ∈ "xX".toList.map Char.toNat := by simpa [isEither] using hletter
  have hdigit : run Text.isAsciiDigit (zero :: g :: gs') = 1 := by
    have hfirst : Text.isAsciiDigit zero.code = true := by
      rw [eq_of_beq hcode]
      rfl
    have hnot : ∀ c ∈ "xX".toList.map Char.toNat, Text.isAsciiDigit c = false := by decide
    simp [run, hfirst, hnot _ hletter]
  have hdigits : many1 isHexDigit gs' = some m := hhex
  cases gs' with
  | nil => cases hdigits
  | cons d rest =>
    have hd : isHexDigit d.code = true := by
      by_contra h
      simp [many1, run, h] at hdigits
    have hall : ∀ c < 0x67, isHexDigit c = true →
      c ∈ "0123456789abcdefABCDEF".toList.map Char.toNat := by decide
    refine ⟨zero, g, d, rest, rfl, hdigit, hletter, hall _ ?_ hd⟩
    simp only [isHexDigit, Text.isAsciiDigit, Bool.or_eq_true, Bool.and_eq_true,
      decide_eq_true_eq] at hd
    omega

/-- The kinds of `-(t)` where the parenthesis is the decimal point and `t` starts with a digit:
behind a minus sign and a real come those of `t` behind its first one, or one that cannot come
behind a literal. -/
theorem kinds_pointed (hvalid : o.fault? = none) (hpoint : o.decimalPoint = 0x28)
    (hrequire : o.requireDigits = false)
    (text : Text) (hdigits : run Text.isAsciiDigit text.glyphs ≠ 0) :
    ∃ ks, (Lexer.ofOptions o).kinds (negated text).glyphs =
      .minus :: .real :: (ks ++ [Kind.parenClose]) ∧
      ((∃ k, (k = .real ∨ k = .integer) ∧ (Lexer.ofOptions o).kinds text.glyphs = k :: ks) ∨
        ∃ k, (k = .real ∨ k = .parenOpen ∨ k = .identifier) ∧ ks.head? = some k) := by
  generalize hgs : text.glyphs = gs at hdigits
  have hd : run Text.isAsciiDigit (gs ++ [closing]) = run Text.isAsciiDigit gs := run_append rfl gs
  have hle := run_le Text.isAsciiDigit gs
  have hlength := ending_le (gs.drop (run Text.isAsciiDigit gs))
  rw [List.length_drop] at hlength
  refine ⟨(Lexer.ofOptions o).kinds ((gs.drop (run Text.isAsciiDigit gs)).drop
    (ending (gs.drop (run Text.isAsciiDigit gs)))),
    ?_, ?_⟩
  · rw [glyphs_negated, hgs, kinds_of_tokenAt? rfl (tokenAt?_dash hvalid _), List.drop_zero,
      kinds_of_tokenAt? rfl (tokenAt?_point hvalid rfl hpoint hrequire (by rwa [hd])), hd,
      List.drop_append_of_le_length hle, ending_append, Nat.add_sub_cancel, ← List.drop_drop,
      List.drop_append_of_le_length hle, List.drop_append_of_le_length
        (by rw [List.length_drop]; omega), kinds_append hvalid]
  · generalize hrest : gs.drop (run Text.isAsciiDigit gs) = rest
    -- A token behind the digits that no exponent or suffix is part of.
    have hbehind : ∀ {g : Glyph} {gs : List Glyph} {k : Kind} {n : Nat}, rest = g :: gs →
      isBlank g.code = false →
        ending (g :: gs) = 0 → (Lexer.ofOptions o).tokenAt? (g :: gs) = some (k, n) →
        ((Lexer.ofOptions o).kinds (rest.drop (ending rest))).head? = some k := by
      rintro g gs k n rfl hblank hending htoken
      rw [hending, List.drop_zero, kinds_of_tokenAt? hblank htoken]
      rfl
    by_cases hsuffix : integerSuffix rest = some 0
    · by_cases hhex : scanHex gs = none
      · cases hone : one (· == o.decimalPoint) rest with
        | none =>
          cases gs with
          | nil => exact absurd rfl hdigits
          | cons g gs =>
            have hdigit : Text.isAsciiDigit g.code = true := by
              by_contra h
              exact hdigits (if_neg h)
            rw [← hrest] at hone hsuffix
            obtain ⟨k, hk, htoken⟩ := tokenAt?_digits hvalid hdigits hone hsuffix hhex
            refine .inl ⟨k, hk, ?_⟩
            obtain ⟨-, -, -, -, hblank⟩ := isAsciiDigit_cases hdigit
            obtain ⟨d, hd⟩ := Nat.exists_eq_succ_of_ne_zero hdigits
            rw [kinds_of_tokenAt? hblank htoken, ← hrest, List.drop_drop, hd, Nat.succ_add]
            rfl
        | some n =>
          obtain ⟨g, gs', rfl, hg, -⟩ := exists_of_one hone
          have hg : g.code = 0x28 := (eq_of_beq hg).trans hpoint
          have hblank : isBlank g.code = false := by rw [hg]; rfl
          have hending : ending (g :: gs') = 0 := by
            obtain ⟨code, bytes⟩ := g
            cases hg
            rfl
          by_cases hmore : run Text.isAsciiDigit gs' = 0
          · exact .inr ⟨.parenOpen, .inr (.inl rfl),
              hbehind rfl hblank hending (tokenAt?_opening hvalid hg fun _ _ => hmore)⟩
          · exact .inr ⟨.real, .inl rfl, hbehind rfl hblank hending
              (tokenAt?_point hvalid hg hpoint hrequire hmore)⟩
      · obtain ⟨n, hn⟩ := Option.ne_none_iff_exists'.1 hhex
        obtain ⟨zero, g, d, gs', rfl, hone, hg, hd⟩ := letter_of_hex hn
        obtain ⟨htoken, hending, hblank, -⟩ := @tokenAt?_letter o g (d :: gs') hvalid hpoint
          (.inr ⟨hg, fun c hc => by cases hc; exact hd⟩) (by simp at hg ⊢; omega)
        rw [hone] at hrest
        exact .inr ⟨.identifier, .inr (.inr rfl), hbehind hrest.symm hblank hending htoken⟩
    · obtain ⟨g, gs', hcons, hg⟩ := letter_of_integer hsuffix
      obtain ⟨htoken, hending, hblank, -⟩ := @tokenAt?_letter o g gs' hvalid hpoint
        (.inl (by simp at hg ⊢; omega)) (by simp at hg ⊢; omega)
      exact .inr ⟨.identifier, .inr (.inr rfl), hbehind hcons hblank hending htoken⟩

end Numbers

end Lexical

end Formulary
