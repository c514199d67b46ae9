import Mathlib.Data.List.Basic
import Formulary.Proofs.Lexical.Cursor

/-!
# A closing parenthesis behind a text

No token changes when a parenthesis is closed behind a text: no scanner can use the sign to take
more, and no fixed string goes on with it. So the lexemes of the text stay as they are, and the
parenthesis is one more token.
-/

namespace Formulary

open Text (Glyph closing)

namespace Lexical

structure Blind (s : Scanner) : Prop where
  append : ∀ gs, s (gs ++ [closing]) = s gs
  bounded : ∀ gs n, s gs = some n → n ≤ gs.length

section Combinators

variable {p : Nat → Bool}

theorem run_append (hp : p 0x29 = false) (gs : List Glyph) :
    run p (gs ++ [closing]) = run p gs := by
  induction gs with
  | nil => simp [run, closing, hp]
  | cons g gs ih =>
    rw [List.cons_append, run, run, ih]

theorem blind_one (hp : p 0x29 = false) : Blind (one p) where
  append gs := by
    cases gs with
    | nil => simp [one, closing, hp]
    | cons g gs => rfl
  bounded gs n h := by
    cases gs with
    | nil => cases h
    | cons g gs =>
      simp only [one] at h
      split at h
      · cases h
        simp
      · cases h

theorem blind_many (hp : p 0x29 = false) : Blind (many p) where
  append gs := by rw [many, run_append hp, many]
  bounded gs n h := by
    cases h
    exact run_le p gs

theorem blind_many1 (hp : p 0x29 = false) : Blind (many1 p) where
  append gs := by rw [many1, run_append hp, many1]
  bounded gs n h := by
    simp only [many1] at h
    split at h
    · cases h
    · cases h
      exact run_le p gs

theorem run_take_append (hp : p 0x29 = false) (m : Nat) (gs : List Glyph) :
    run p ((gs ++ [closing]).take m) = run p (gs.take m) := by
  rcases Nat.lt_or_ge gs.length m with h | h
  · rw [List.take_of_length_le (by simp; omega), run_append hp,
      List.take_of_length_le (Nat.le_of_lt h)]
  · rw [List.take_append_of_le_length h]

theorem blind_upTo (hp : p 0x29 = false) (m : Nat) : Blind (upTo p m) where
  append gs := by rw [upTo, run_take_append hp, upTo]
  bounded gs n h := by
    cases h
    have := run_le p (gs.take m)
    rw [List.length_take] at this
    omega

theorem blind_exactly (hp : p 0x29 = false) (m : Nat) : Blind (exactly p m) where
  append gs := by simp only [exactly, run_take_append hp]
  bounded gs n h := by
    simp only [exactly] at h
    split at h
    · rename_i hrun
      cases h
      have := run_le p (gs.take m)
      rw [List.length_take, beq_iff_eq.1 hrun] at this
      omega
    · cases h

theorem Blind.drop {s : Scanner} (h : Blind s) {gs : List Glyph} {n : Nat} (hn : n ≤ gs.length) :
    s ((gs ++ [closing]).drop n) = s (gs.drop n) := by
  rw [List.drop_append_of_le_length hn, h.append]

theorem blind_both {a b : Scanner} (ha : Blind a) (hb : Blind b) : Blind (both a b) where
  append gs := by
    simp only [both, ha.append]
    cases h : a gs with
    | none => rfl
    | some n => simp only [Option.bind_some, hb.drop (ha.bounded gs n h)]
  bounded gs m h := by
    obtain ⟨n, hn, h⟩ := Option.bind_eq_some_iff.1 h
    obtain ⟨k, hk, rfl⟩ := Option.map_eq_some_iff.1 h
    have := ha.bounded gs n hn
    have := hb.bounded _ k hk
    rw [List.length_drop] at this
    omega

theorem blind_nothing : Blind fun _ => some 0 :=
  ⟨fun _ => rfl, fun _ n h => by cases h; exact Nat.zero_le _⟩

theorem blind_parts {ss : List Scanner} (h : ∀ s ∈ ss, Blind s) : Blind (parts ss) := by
  induction ss with
  | nil => exact blind_nothing
  | cons s ss ih =>
    exact blind_both (h s List.mem_cons_self) (ih fun x hx => h x (List.mem_cons_of_mem s hx))

theorem blind_either {a b : Scanner} (ha : Blind a) (hb : Blind b) : Blind (either a b) where
  append gs := by simp only [either, ha.append, hb.append]
  bounded gs n h := by
    rcases Option.or_eq_some_iff.1 h with h | ⟨-, h⟩
    · exact ha.bounded gs n h
    · exact hb.bounded gs n h

theorem blind_optional {a : Scanner} (ha : Blind a) : Blind (optional a) where
  append gs := by simp only [optional, ha.append]
  bounded gs n h := by
    cases h
    cases h : a gs with
    | none => exact Nat.zero_le _
    | some n => exact ha.bounded gs n h

structure Greedy (s : Scanner) : Prop where
  append : ∀ gs, s (gs ++ [closing]) = s gs ∨
    s (gs ++ [closing]) = some (gs.length + 1) ∧ (s gs = none ∨ s gs = some gs.length)
  bounded : ∀ gs n, s gs = some n → n ≤ gs.length

theorem blind_both_greedy {a b : Scanner} (ha : Greedy a) (hb : Blind b) (hnil : b [] = none) :
    Blind (both a b) where
  append gs := by
    simp only [both]
    rcases ha.append gs with h | ⟨h, hgs | hgs⟩
    · rw [h]
      cases h : a gs with
      | none => rfl
      | some n => simp only [Option.bind_some, hb.drop (ha.bounded gs n h)]
    · rw [h, hgs]
      simp [List.drop_of_length_le, hnil]
    · rw [h, hgs]
      simp [List.drop_of_length_le, hnil]
  bounded gs m h := by
    obtain ⟨n, hn, h⟩ := Option.bind_eq_some_iff.1 h
    obtain ⟨k, hk, rfl⟩ := Option.map_eq_some_iff.1 h
    have := ha.bounded gs n hn
    have := hb.bounded _ k hk
    rw [List.length_drop] at this
    omega

theorem greedy_one (p : Nat → Bool) : Greedy (one p) where
  append gs := by
    cases gs with
    | nil =>
      cases h : p 0x29 with
      | true => exact .inr ⟨by simp [one, closing, h], .inl rfl⟩
      | false => exact .inl (by simp [one, closing, h])
    | cons g gs => exact .inl rfl
  bounded gs n h := by
    cases gs with
    | nil => cases h
    | cons g gs =>
      simp only [one] at h
      split at h
      · cases h
        simp
      · cases h

theorem greedy_many1 (p : Nat → Bool) : Greedy (many1 p) where
  append gs := by
    have hrun : run p (gs ++ [closing]) = run p gs ∨ run p (gs ++ [closing]) = gs.length + 1 ∧
        run p gs = gs.length := by
      induction gs with
      | nil =>
        cases h : p 0x29 with
        | true => exact .inr (by simp [run, closing, h])
        | false => exact .inl (by simp [run, closing, h])
      | cons g gs ih =>
        rw [List.cons_append, run, run, List.length_cons]
        split
        · omega
        · exact .inl rfl
    simp only [many1]
    rcases hrun with h | ⟨h, hgs⟩
    · exact .inl (by rw [h])
    · refine .inr ⟨by simp [h], ?_⟩
      rw [hgs]
      split
      · exact .inl rfl
      · exact .inr rfl
  bounded gs n h := by
    simp only [many1] at h
    split at h
    · cases h
    · cases h
      exact run_le p gs

theorem greedy_either {a b : Scanner} (ha : Blind a) (hb : Greedy b) : Greedy (either a b) where
  append gs := by
    simp only [either, ha.append]
    cases h : a gs with
    | some n => exact .inl rfl
    | none => simpa using hb.append gs
  bounded gs n h := by
    rcases Option.or_eq_some_iff.1 h with h | ⟨-, h⟩
    · exact ha.bounded gs n h
    · exact hb.bounded gs n h

end Combinators

theorem blind_integerSuffix : Blind integerSuffix :=
  blind_optional (blind_either (blind_both (blind_one rfl) (blind_optional (blind_one rfl)))
    (blind_both (blind_one rfl) (blind_optional (blind_one rfl))))

theorem blind_realSuffix : Blind realSuffix := blind_one rfl

theorem blind_exponent : Blind exponent := by
  refine blind_parts ?_
  simp only [List.forall_mem_cons]
  exact ⟨blind_one rfl, blind_optional (blind_one rfl), blind_one rfl, blind_upTo rfl 2, nofun⟩

theorem blind_integer : Blind scanInteger := blind_both (blind_many1 rfl) blind_integerSuffix

theorem blind_hex : Blind scanHex := by
  refine blind_parts ?_
  simp only [List.forall_mem_cons]
  exact ⟨blind_one rfl, blind_one rfl, blind_many1 rfl, blind_integerSuffix, nofun⟩

theorem blind_identifier : Blind scanIdentifier := by
  refine blind_parts ?_
  simp only [List.forall_mem_cons]
  exact ⟨blind_optional (blind_one rfl), blind_one rfl, blind_many rfl, nofun⟩

theorem blind_timeSpan : Blind scanTimeSpan := by
  have hfraction : Blind (parts [mark '.', one Text.isAsciiDigit, upTo Text.isAsciiDigit 6]) := by
    refine blind_parts ?_
    simp only [List.forall_mem_cons]
    exact ⟨blind_one rfl, blind_one rfl, blind_upTo rfl 6, nofun⟩
  have hseconds : Blind (parts [mark ':', exactly Text.isAsciiDigit 2,
      optional (parts [mark '.', one Text.isAsciiDigit, upTo Text.isAsciiDigit 6])]) := by
    refine blind_parts ?_
    simp only [List.forall_mem_cons]
    exact ⟨blind_one rfl, blind_exactly rfl 2, blind_optional hfraction, nofun⟩
  refine blind_parts ?_
  simp only [List.forall_mem_cons]
  exact ⟨blind_one rfl, blind_one rfl, blind_optional
    (blind_both (blind_many1 rfl) (blind_one rfl)), blind_exactly rfl 2,
    blind_one rfl, blind_exactly rfl 2, blind_optional hseconds, blind_one rfl, nofun⟩

theorem blind_escape : Blind escape :=
  blind_either (blind_one rfl) (blind_both (blind_one rfl) (blind_exactly rfl 4))

theorem blind_char : Blind scanChar :=
  blind_both (blind_one rfl) (blind_both_greedy
    (greedy_either (blind_both (blind_one rfl) blind_escape) (greedy_one _))
    (blind_both (blind_one rfl) blind_nothing) rfl)

theorem blind_dateTime : Blind scanDateTime :=
  blind_both (blind_one rfl) (blind_both_greedy (greedy_many1 _)
    (blind_both (blind_one rfl) blind_nothing) rfl)

theorem stringBody_append (skip : Nat) (gs : List Glyph) :
    stringBody skip (gs ++ [closing]) = stringBody skip gs := by
  induction gs generalizing skip with
  | nil => cases skip <;> simp [stringBody, closing, isLineEnd]
  | cons g gs ih =>
    cases skip with
    | succ n => simp only [List.cons_append, stringBody, ih]
    | zero => simp only [List.cons_append, stringBody, ih, blind_escape.append]

theorem stringBody_le {skip n : Nat} {gs : List Glyph} (h : stringBody skip gs = some n) :
    n ≤ gs.length := by
  induction gs generalizing skip n with
  | nil => cases skip <;> cases h
  | cons g gs ih =>
    have hmap : ∀ {skip : Nat}, (stringBody skip gs).map (· + 1) = some n →
        n ≤ (g :: gs).length := by
      intro skip h
      obtain ⟨m, hm, rfl⟩ := Option.map_eq_some_iff.1 h
      exact Nat.succ_le_succ (ih hm)
    cases skip with
    | succ k => exact hmap h
    | zero =>
      simp only [stringBody] at h
      split at h
      · cases h
        exact Nat.succ_le_succ (Nat.zero_le _)
      · split at h
        · split at h
          · exact hmap h
          · cases h
        · split at h
          · cases h
          · exact hmap h

theorem blind_string : Blind scanString :=
  blind_both (blind_one rfl) ⟨stringBody_append 0, fun _ _ h => stringBody_le h⟩

/-- A point needs digits behind it, so the parenthesis does not help even where it is the decimal
point. -/
theorem blind_real (o : Options) : Blind (scanReal o) := by
  have hfraction :
      Blind (parts [many1 Text.isAsciiDigit, optional exponent, optional realSuffix]) := by
    refine blind_parts ?_
    simp only [List.forall_mem_cons]
    exact ⟨blind_many1 rfl, blind_optional blind_exponent, blind_optional blind_realSuffix, nofun⟩
  have hplain : Blind (either (both exponent (optional realSuffix)) realSuffix) :=
    blind_either (blind_both blind_exponent (blind_optional blind_realSuffix)) blind_realSuffix
  constructor
  · intro gs
    have hle := run_le Text.isAsciiDigit gs
    simp only [scanReal, run_append (p := Text.isAsciiDigit) rfl, List.drop_append_of_le_length hle]
    cases hrest : gs.drop (run Text.isAsciiDigit gs) with
    | nil =>
      have hnone : parts [many1 Text.isAsciiDigit, optional exponent, optional realSuffix]
        [] = none := rfl
      have hnone' : either (both exponent (optional realSuffix)) realSuffix [] = none := rfl
      have hnone'' : either (both exponent (optional realSuffix)) realSuffix ([] ++ [closing]) =
        none := hplain.append []
      simp only [List.nil_append] at hnone''
      simp [one, hnone, hnone', hnone'']
    | cons g rest =>
      have hhead : one (· == o.decimalPoint) (g :: rest ++ [closing]) =
        one (· == o.decimalPoint) (g :: rest) := rfl
      have hdrop : (g :: rest ++ [closing]).drop 1 = rest ++ [closing] := rfl
      rw [hhead, hdrop, hfraction.append, hplain.append]
      rfl
  · intro gs n h
    have hle := run_le Text.isAsciiDigit gs
    simp only [scanReal] at h
    split at h
    · rename_i hpoint
      split at h
      · cases h
      · obtain ⟨m, hm, rfl⟩ := Option.map_eq_some_iff.1 h
        have := hfraction.bounded _ m hm
        obtain ⟨k, hk⟩ := Option.isSome_iff_exists.1 hpoint
        have := (greedy_one _).bounded _ k hk
        have hpos : 0 < (gs.drop (run Text.isAsciiDigit gs)).length := by
          cases hrest : gs.drop (run Text.isAsciiDigit gs) with
          | nil =>
            rw [hrest] at hk
            cases hk
          | cons g rest => exact Nat.succ_pos _
        simp only [List.length_drop] at *
        omega
    · split at h
      · cases h
      · obtain ⟨m, hm, rfl⟩ := Option.map_eq_some_iff.1 h
        have := hplain.bounded _ m hm
        rw [List.length_drop] at this
        omega

theorem blind_of_mem {o : Options} {k : Kind} {scan : Scanner} (h : (k, scan) ∈ scanners o) :
    Blind scan := by
  simp only [scanners, List.mem_cons, Prod.mk.injEq, List.not_mem_nil, or_false] at h
  rcases h with ⟨-, rfl⟩ | ⟨-, rfl⟩ | ⟨-, rfl⟩ | ⟨-, rfl⟩ | ⟨-, rfl⟩ | ⟨-,
    rfl⟩ | ⟨-, rfl⟩ | ⟨-, rfl⟩
  · exact blind_hex
  · exact blind_real o
  · exact blind_integer
  · exact blind_string
  · exact blind_char
  · exact blind_timeSpan
  · exact blind_dateTime
  · exact blind_identifier

/-- The longest scanned token stays the same. -/
theorem longestScan_append (o : Options) (gs : List Glyph) :
    longestScan (scanners o) (gs ++ [closing]) = longestScan (scanners o) gs := by
  refine List.foldl_ext _ _ _ fun best entry hentry => ?_
  rw [longer, longer, (blind_of_mem hentry).append]

/-- A code point as an entry compares it. -/
def Entry.shade (e : Entry) (c : Nat) : Nat := if e.ignoreCase then Text.foldCode c else c

theorem Entry.covers_iff {e : Entry} {codes : List Nat} : e.covers codes = true ↔
    e.codes.map e.shade = codes.map e.shade := by
  unfold covers shade
  cases e.ignoreCase <;> simp

theorem Entry.shade_direct : Entry.shade = fun e c =>
    if e.ignoreCase then Text.directFold c else c := by
  funext e c
  rw [shade, Text.foldCode_eq]

def commonEntries : Dictionary :=
  (Kind.keywords.map (fun k => Entry.mk (Text.ofString k.name).codes true k) ++
    Kind.symbols.map fun k => Entry.mk (Text.ofString k.name).codes false k).reverse

theorem dictionary_ofOptions (o : Options) :
    (Lexer.ofOptions o).dictionary = ⟨(Text.encode o.separator).codes, false, .separator⟩ ::
      commonEntries := rfl

/-- No longer entry starts with a minus sign or an opening parenthesis, or ends with a closing
one. -/
theorem commonEntries_apart : ∀ e ∈ commonEntries, 2 ≤ e.codes.length →
    e.codes.head?.map e.shade ≠ some (e.shade 0x2D) ∧
      e.codes.head?.map e.shade ≠ some (e.shade 0x28) ∧
      e.codes.getLast?.map e.shade ≠ some (e.shade 0x29) := by
  rw [Entry.shade_direct]
  decide +kernel

theorem commonEntries_signs : commonEntries.kindOf? [0x2D] = some .minus ∧
    commonEntries.kindOf? [0x28] = some .parenOpen ∧
    commonEntries.kindOf? [0x29] = some .parenClose := by
  decide +kernel

/-- A separator of valid settings is no symbol. -/
theorem isSymbol_separator {o : Options} (h : o.fault? = none) : isSymbol o.separator = false := by
  unfold Options.fault? at h
  split at h
  · cases h
  · split at h
    · cases h
    · split at h
      · cases h
      · rename_i htest
        by_cases hcomma : o.separator = 0x2C
        · rw [hcomma]
          decide
        · simpa [hcomma] using htest

section Dictionary

variable {o : Options} {codes : List Nat}

/-- The separator is one character, and none that is a symbol. -/
theorem separator_covers (hvalid : o.fault? = none)
    (h : (⟨(Text.encode o.separator).codes, false, .separator⟩ : Entry).covers codes = true) :
    ∃ c, codes = [c] ∧ isSymbol c = false := by
  obtain ⟨c, hc, hlow, hhigh⟩ := Text.codes_encode o.separator
  simp only [Entry.covers, hc, Bool.false_eq_true, if_false, beq_iff_eq] at h
  refine ⟨c, h.symm, ?_⟩
  rcases Nat.lt_or_ge o.separator 0x80 with hlt | hge
  · rw [hlow hlt]
    exact isSymbol_separator hvalid
  · rw [Bool.eq_false_iff]
    intro hsymbol
    obtain ⟨k, hk, hname⟩ := List.any_eq_true.1 hsymbol
    have hascii : ∀ k ∈ Kind.symbols, ∀ d ∈ k.name.toList.map Char.toNat, d < 0x80 := by decide
    have := hascii k hk c (by rw [beq_iff_eq.1 hname]; exact List.mem_singleton.2 rfl)
    have := hhigh hge
    omega

/-- Codes that no entry of more than one code can stand for. -/
theorem kindOf?_eq_none (hvalid : o.fault? = none) (hlength : 2 ≤ codes.length)
    (h : codes.head? = some 0x2D ∨ codes.head? = some 0x28 ∨ codes.getLast? = some 0x29) :
    (Lexer.ofOptions o).dictionary.kindOf? codes = none := by
  have hnone : (Lexer.ofOptions o).dictionary.find? (·.covers codes) = none := by
    rw [List.find?_eq_none, dictionary_ofOptions]
    intro e he hcovers
    rcases List.mem_cons.1 he with rfl | he
    · obtain ⟨c, rfl, -⟩ := separator_covers hvalid hcovers
      simp at hlength
    · obtain ⟨hminus, hopen, hclose⟩ := commonEntries_apart e he
        (by rw [length_eq_of_covers hcovers]; exact hlength)
      rw [Entry.covers_iff] at hcovers
      rw [← List.head?_map, hcovers, List.head?_map] at hminus hopen
      rw [← List.getLast?_map, hcovers, List.getLast?_map] at hclose
      rcases h with h | h | h
      · exact hminus (by rw [h]; rfl)
      · exact hopen (by rw [h]; rfl)
      · exact hclose (by rw [h]; rfl)
  rw [Dictionary.kindOf?, hnone]
  rfl

/-- A symbol alone means what it means without a separator. -/
theorem kindOf?_symbol (hvalid : o.fault? = none) {c : Nat} (hc : isSymbol c = true) :
    (Lexer.ofOptions o).dictionary.kindOf? [c] = commonEntries.kindOf? [c] := by
  rw [dictionary_ofOptions, Dictionary.kindOf?, Dictionary.kindOf?, List.find?_cons]
  split
  · rename_i hcovers
    obtain ⟨d, hd, hd'⟩ := separator_covers hvalid hcovers
    cases hd
    rw [hc] at hd'
    cases hd'
  · rfl

/-- The longest fixed string stays the same. -/
theorem longest?_append (hvalid : o.fault? = none) {gs : List Glyph} (hne : gs ≠ []) :
    (Lexer.ofOptions o).dictionary.longest? (gs ++ [closing]) =
      (Lexer.ofOptions o).dictionary.longest? gs := by
  unfold Dictionary.longest?
  generalize hwidth : (Lexer.ofOptions o).dictionary.width = w
  rcases Nat.lt_or_ge gs.length w with hlt | hge
  · have hall : (gs ++ [closing]).take w = gs ++ [closing] :=
      List.take_of_length_le (by simp; omega)
    have hcodes : (gs ++ [closing]).map (·.code) = gs.map (·.code) ++ [0x29] := by simp [closing]
    have hnone : (Lexer.ofOptions o).dictionary.kindOf? (gs.map (·.code) ++ [0x29]) = none :=
      kindOf?_eq_none hvalid (by have := List.length_pos_iff.2 hne; simp; omega)
        (.inr (.inr (by simp)))
    simp only
    rw [hall, List.take_of_length_le (Nat.le_of_lt hlt), hcodes, List.length_append,
      List.length_singleton, Dictionary.longestUpTo, List.take_of_length_le (by simp), hnone]
    exact longestUpTo_append _ _ (Nat.le_refl _)
  · rw [List.take_append_of_le_length hge]

end Dictionary

section Tokens

variable {o : Options} {gs : List Glyph}

/-- The token at the front of a text stays the same. -/
theorem tokenAt?_append (hvalid : o.fault? = none) (hne : gs ≠ []) :
    (Lexer.ofOptions o).tokenAt? (gs ++ [closing]) = (Lexer.ofOptions o).tokenAt? gs := by
  have hscan : longestScan (scanners (Lexer.ofOptions o).options) (gs ++ [closing]) =
      longestScan (scanners (Lexer.ofOptions o).options) gs := longestScan_append o gs
  unfold Lexer.tokenAt?
  rw [longest?_append hvalid hne, hscan]

theorem tokenAt?_le {l : Lexer} {k : Kind} {n : Nat} (h : l.tokenAt? gs = some (k, n)) :
    n ≤ gs.length := by
  have hscan : ∀ {k : Kind} {n : Nat}, longestScan (scanners l.options) gs = some (k, n) →
      n ≤ gs.length := by
    intro k n h
    obtain ⟨scan, hmem, hn⟩ := longestScan_scanned h
    exact (blind_of_mem hmem).bounded gs n hn
  have hfixed : ∀ {k : Kind} {n : Nat}, l.dictionary.longest? gs = some (k, n) → n ≤ gs.length := by
    intro k n h
    have := longestUpTo_le h
    rw [List.length_map, List.length_take] at this
    omega
  unfold Lexer.tokenAt? at h
  simp only at h
  split at h
  · rename_i hlong hscanned
    split at h
    · cases h
      exact hscan hscanned
    · cases h
      exact hfixed hlong
  · rename_i hlong _
    cases h
    exact hfixed hlong
  · exact hscan h

end Tokens

end Lexical

end Formulary
