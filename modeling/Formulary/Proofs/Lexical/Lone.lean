import Formulary.Proofs.Lexical.Numerals

/-!
# Texts that are one numeral

Digits alone are read as one integer, and hexadecimal digits behind their prefix, with a suffix or
without one, as one hexadecimal numeral; a minus sign in front is a token of its own.
-/

namespace Formulary

open Number (AllDigits)
open Text (Glyph)

namespace Text

/-- A character of ASCII as it is spelled. -/
def glyphOf (c : Char) : Glyph := ⟨c.toNat, [c.toNat.toUInt8]⟩

@[simp] theorem code_glyphOf (c : Char) : (glyphOf c).code = c.toNat := rfl

theorem glyphs_ofByteChars {cs : List Char} (h : ∀ c ∈ cs, c.toNat < 0x80) :
    (ofByteChars cs).glyphs = cs.map glyphOf := by
  induction cs with
  | nil => rfl
  | cons c cs ih =>
    rw [List.map_cons, ← ih fun x hx => h x (List.mem_cons_of_mem c hx)]
    exact glyphs_cons_of_lt (h c List.mem_cons_self) (ofByteChars cs)

theorem ofString_append (s s' : String) : ofString (s ++ s') = ofString s ++ ofString s' := by
  simp only [ofString_eq, String.toList_append, List.flatMap_append]

theorem ofString_ofList {cs : List Char} (h : ∀ c ∈ cs, c.toNat < 0x80) :
    ofString (String.ofList cs) = ofByteChars cs := by
  rw [ofString_eq, String.toList_ofList]
  induction cs with
  | nil => rfl
  | cons c cs ih =>
    rw [List.flatMap_cons, ih fun x hx => h x (List.mem_cons_of_mem c hx), encode,
      if_pos (h c List.mem_cons_self)]
    rfl

end Text

namespace Lexical

open Text (glyphOf)

variable {o : Options} {l : Lexer}

section Scans

variable {gs : List Glyph} {k : Kind} {s : Scanner}

/-- A scanner that takes all characters has the longest token if those before it in the table take
none. -/
theorem longestScan_whole {front back : List (Kind × Scanner)} (hfront : ∀ e ∈ front, e.2 gs = none)
    (hs : s gs = some gs.length) (hne : gs ≠ [])
    (hback : ∀ e ∈ back, ∀ n, e.2 gs = some n → n ≤ gs.length) :
    longestScan (front ++ (k, s) :: back) gs = some (k, gs.length) := by
  have hpos : 0 < gs.length := List.length_pos_of_ne_nil hne
  unfold longestScan
  rw [List.foldl_append, List.foldl_cons]
  refine List.foldlRecOn back _ (motive := (· = some (k, gs.length))) ?_ ?_
  · rw [List.foldlRecOn front _ (motive := (· = (none : Option (Kind × Nat)))) rfl ?_]
    · simp only [longer, hs]
      exact if_pos hpos
    · rintro _ rfl e he
      rw [longer, hfront e he]
  · rintro _ rfl e he
    rw [longer]
    cases hn : e.2 gs with
    | none => rfl
    | some n => exact if_neg (Nat.not_lt.2 (hback e he n hn))

theorem scanners_le {e : Kind × Scanner} (he : e ∈ scanners o) (n : Nat) (h : e.2 gs = some n) :
    n ≤ gs.length :=
  (blind_of_mem he).bounded gs n h

/-- A run of characters of a class ends where another one starts. -/
theorem run_glyphs {p : Nat → Bool} {cs rest : List Char} (h : ∀ c ∈ cs, p c.toNat = true)
    (hrest : ∀ c ∈ rest.head?, p c.toNat = false) :
    run p ((cs ++ rest).map glyphOf) = cs.length := by
  induction cs with
  | nil =>
    cases rest with
    | nil => rfl
    | cons c rest => exact if_neg (by simpa using hrest c rfl)
  | cons c cs ih =>
    rw [List.cons_append, List.map_cons, run, Text.code_glyphOf, if_pos (h c List.mem_cons_self),
      ih fun x hx => h x (List.mem_cons_of_mem c hx)]
    rfl

end Scans

section Integers

variable {ds suffix : List Char}

theorem isAsciiDigit_of_isDigit {c : Char} (h : c.isDigit = true) :
    Text.isAsciiDigit c.toNat = true := by
  simp only [Char.isDigit, Bool.and_eq_true, decide_eq_true_eq, ge_iff_le,
    UInt32.le_iff_toNat_le] at h
  simp only [Text.isAsciiDigit, Bool.and_eq_true, decide_eq_true_eq]
  exact h

theorem longestScan_integer (h : AllDigits ds) (hne : ds ≠ []) :
    longestScan (scanners o) (ds.map glyphOf) = some (.integer, (ds.map glyphOf).length) := by
  have hrun : run Text.isAsciiDigit (ds.map glyphOf) = ds.length := by
    have hrest : ∀ c ∈ ([] : List Char).head?, Text.isAsciiDigit c.toNat = false := nofun
    have hrun := run_glyphs (fun c hc => isAsciiDigit_of_isDigit (h c hc)) hrest
    rwa [List.append_nil] at hrun
  have hlength : ds.length ≠ 0 := by simpa using hne
  have hdrop : (ds.map glyphOf).drop ds.length = [] := by simp
  have hinteger : scanInteger (ds.map glyphOf) = some (ds.map glyphOf).length := by
    have hsuffix : integerSuffix [] = some 0 := rfl
    simp only [scanInteger, both, many1, hrun, beq_iff_eq, if_neg hlength,
      Option.bind_some, hdrop, hsuffix, Option.map_some, List.length_map, Nat.add_zero]
  have hreal : scanReal o (ds.map glyphOf) = none := by
    rw [scanReal_plain (by rwa [hrun]) (by rw [hrun, hdrop]; rfl), hrun, hdrop]
    rfl
  have hhex : scanHex (ds.map glyphOf) = none := by
    cases hscan : scanHex (ds.map glyphOf) with
    | none => rfl
    | some n =>
      obtain ⟨zero, g, d, rest, hgs, -, hg, -⟩ := letter_of_hex hscan
      have hmem : g ∈ ds.map glyphOf := by simp [hgs]
      obtain ⟨c, hc, rfl⟩ := List.mem_map.1 hmem
      have hnot : ∀ c ∈ "xX".toList.map Char.toNat, Text.isAsciiDigit c = false := by decide
      exact absurd (isAsciiDigit_of_isDigit (h c hc)) (Bool.eq_false_iff.1 (hnot _ hg))
  have hsplit : scanners o = [(Kind.hex, scanHex), (.real, scanReal o)] ++
      (Kind.integer, scanInteger) :: (scanners o).drop 3 := rfl
  rw [hsplit]
  refine longestScan_whole ?_ hinteger (by simpa using hne) fun e he n hn =>
    scanners_le (List.mem_of_mem_drop he) n hn
  simp only [List.forall_mem_cons, hhex, hreal, List.not_mem_nil, false_implies,
    implies_true, and_self]

theorem isEither_of_toLower {x c : Char} (hx : x.toUpper.toNat + 32 = x.toNat) (h : c.toLower = x) :
    c = x ∨ c = x.toUpper := by
  rcases toLower_cases c with hsame | ⟨-, -, hcapital⟩
  · exact .inl (hsame.symm.trans h)
  · rw [h] at hcapital
    exact .inr (Char.toNat_inj.1 (by omega))

/-- A suffix of an integer is taken whole. -/
theorem integerSuffix_glyphs (h : suffix.map Char.toLower ∈ integerSuffixes) :
    integerSuffix (suffix.map glyphOf) = some suffix.length := by
  have hu : ∀ {c : Char}, c.toLower = 'u' → c = 'u' ∨ c = 'U' := isEither_of_toLower (by decide)
  have hl : ∀ {c : Char}, c.toLower = 'l' → c = 'l' ∨ c = 'L' := isEither_of_toLower (by decide)
  simp only [integerSuffixes, List.mem_cons, List.map_eq_nil_iff, List.map_eq_cons_iff,
    List.not_mem_nil, or_false] at h
  rcases h with rfl | ⟨a, _, rfl, ha, rfl⟩ | ⟨a, _, rfl, ha, rfl⟩ | ⟨a, _, rfl, ha, b,
    _, rfl, hb, rfl⟩ |
    ⟨a, _, rfl, ha, b, _, rfl, hb, rfl⟩
  · rfl
  · rcases hu ha with rfl | rfl <;> rfl
  · rcases hl ha with rfl | rfl <;> rfl
  · rcases hu ha with rfl | rfl <;> rcases hl hb with rfl | rfl <;> rfl
  · rcases hl ha with rfl | rfl <;> rcases hu hb with rfl | rfl <;> rfl

theorem longestScan_hex {letter : Char} (hletter : letter = 'x' ∨ letter = 'X')
    (h : AllHexDigits ds) (hne : ds ≠ []) (hsuffix : suffix.map Char.toLower ∈ integerSuffixes) :
    longestScan (scanners o) (('0' :: letter :: (ds ++ suffix)).map glyphOf) =
      some (.hex, (('0' :: letter :: (ds ++ suffix)).map glyphOf).length) := by
  have hplain : ∀ c ∈ suffix.head?, isHexDigit c.toNat = false := by
    intro c hc
    have hsmall := letter_of_mem_suffix _ hsuffix _ (List.mem_map_of_mem (List.mem_of_mem_head? hc))
    rcases hsmall with hu | hl
    · rcases isEither_of_toLower (by decide) hu with rfl | rfl <;> decide
    · rcases isEither_of_toLower (by decide) hl with rfl | rfl <;> decide
  have hrun := run_glyphs h hplain
  have hhex : scanHex (('0' :: letter :: (ds ++ suffix)).map glyphOf) =
      some (('0' :: letter :: (ds ++ suffix)).map glyphOf).length := by
    have hmark : ∀ gs, mark '0' (glyphOf '0' :: gs) = some 1 := fun _ => rfl
    have hx : ∀ gs, one (isEither 'x') (glyphOf letter :: gs) = some 1 := by
      rcases hletter with rfl | rfl <;> exact fun _ => rfl
    have hdigits : many1 isHexDigit ((ds ++ suffix).map glyphOf) = some ds.length := by
      rw [many1, hrun, if_neg (by simpa using hne)]
    have hdrop : ((ds ++ suffix).map glyphOf).drop ds.length = suffix.map glyphOf := by
      rw [← List.map_drop, List.drop_left]
    simp only [scanHex, parts, List.foldr_cons, List.foldr_nil, both, List.map_cons, hmark, hx,
      Option.bind_some, List.drop_succ_cons, List.drop_zero, hdigits, hdrop,
      integerSuffix_glyphs hsuffix, Option.map_some, List.length_cons, List.length_map,
      List.length_append]
    congr 1
    omega
  have hsplit : scanners o = [] ++ (Kind.hex, scanHex) :: (scanners o).drop 1 := rfl
  rw [hsplit]
  exact longestScan_whole (List.forall_mem_nil _) hhex (List.cons_ne_nil _ _) fun e he n hn =>
    scanners_le (List.mem_of_mem_drop he) n hn

end Integers

end Lexical

end Formulary
