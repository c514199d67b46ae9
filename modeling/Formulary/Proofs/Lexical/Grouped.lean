import Formulary.Proofs.Lexical.Parted

/-!
# Tokens in parentheses

Where neither the decimal point nor the separator is a parenthesis, setting parentheses around some
tokens of a text adds their two tokens and changes no other: a token that ends before a parenthesis
is the one that stood there before (`tokenAt?_parted`), a parenthesis is a token of its own, and
what stands behind it is read on its own.
-/

namespace Formulary

open Text (Glyph closing)

namespace Lexical

section Longest

/-- No scanner takes more than the longest token. -/
theorem le_longestScan {table : List (Kind × Scanner)} {gs : List Glyph} {entry : Kind × Scanner}
    (hentry : entry ∈ table)
    {m : Nat} (hm : entry.2 gs = some m) : m ≤ ((longestScan table gs).map (·.2)).getD 0 := by
  let width : Option (Kind × Nat) → Nat := fun best => (best.map (·.2)).getD 0
  -- a step never makes the best shorter, and the step of the entry makes it as long as the entry
  have hfold : ∀ (step : Option (Kind × Nat) → Kind × Scanner → Option (Kind × Nat)),
      (∀ best e, width best ≤ width (step best e)) → (∀ best, m ≤ width (step best entry)) →
      ∀ (rest : List (Kind × Scanner)) best, m ≤ width best ∨ entry ∈ rest →
        m ≤ width (rest.foldl step best) := by
    intro step hgrows hstep rest
    induction rest with
    | nil =>
      rintro best (h | h)
      · exact h
      · cases h
    | cons e rest ih =>
      intro best h
      refine ih _ ?_
      rcases h with h | h
      · exact .inl (Nat.le_trans h (hgrows best e))
      · rcases List.mem_cons.1 h with rfl | h
        · exact .inl (hstep best)
        · exact .inr h
  refine hfold _ (fun best e => ?_) (fun best => ?_) table none (.inr hentry)
  · unfold longer
    split
    · exact Nat.le_refl _
    · split
      · exact Nat.le_of_lt ‹_›
      · exact Nat.le_refl _
  · simp only [longer, hm]
    split
    · exact Nat.le_refl _
    · exact Nat.le_of_not_lt ‹_›

/-- Neither a fixed string nor a scanner takes more than the token at the front. -/
theorem le_of_tokenAt? {l : Lexer} {gs : List Glyph} {k : Kind} {n : Nat}
    (h : l.tokenAt? gs = some (k, n)) :
    (∀ k' m, l.dictionary.longest? gs = some (k', m) → m ≤ n) ∧
      ∀ entry ∈ scanners l.options, ∀ m, entry.2 gs = some m → m ≤ n := by
  have hscan : ((longestScan (scanners l.options) gs).map (·.2)).getD 0 ≤ n ∧
      ∀ k' m, l.dictionary.longest? gs = some (k', m) → m ≤ n := by
    unfold Lexer.tokenAt? at h
    simp only at h
    split at h
    · rename_i kind n₁ other n₂ hfixed hscanned
      rw [hfixed, hscanned]
      split at h
      · rename_i hlt
        cases h
        exact ⟨Nat.le_refl _, fun k' m hm => by cases hm; exact Nat.le_of_lt hlt⟩
      · rename_i hlt
        cases h
        exact ⟨Nat.le_of_not_lt hlt, fun k' m hm => by cases hm; exact Nat.le_refl _⟩
    · rename_i fixed hfixed hscanned
      cases h
      rw [hfixed, hscanned]
      exact ⟨Nat.zero_le _, fun k' m hm => by cases hm; exact Nat.le_refl _⟩
    · rename_i hfixed
      rw [hfixed, h]
      exact ⟨Nat.le_refl _, nofun⟩
  exact ⟨hscan.2, fun entry hentry m hm => Nat.le_trans (le_longestScan hentry hm) hscan.1⟩

end Longest

section Dictionary

variable {o : Options} {codes : List Nat}

/-- No longer string has a parenthesis, and none starts with a quote. -/
theorem commonEntries_plain : ∀ e ∈ commonEntries,
    (2 ≤ e.codes.length → ∀ c ∈ e.codes, e.shade c ≠ e.shade 0x28 ∧ e.shade c ≠ e.shade 0x29) ∧
      ∀ c ∈ [0x22, 0x27, 0x23], e.codes.head?.map e.shade ≠ some (e.shade c) := by
  rw [Entry.shade_direct]
  decide +kernel

/-- Where the comma separates, a string stands for an entry of its own or is the comma. -/
theorem covered_of_kindOf? (hcomma : o.separator = 0x2C) {k : Kind}
    (h : (Lexer.ofOptions o).dictionary.kindOf? codes = some k) :
    codes = [0x2C] ∨ ∃ e ∈ commonEntries, e.covers codes = true := by
  obtain ⟨h, -⟩ := Option.filter_eq_some_iff.1 h
  obtain ⟨e, he, -⟩ := Option.map_eq_some_iff.1 h
  have hcovers := List.find?_some he
  have hmem := List.mem_of_find?_eq_some he
  rw [dictionary_ofOptions, hcomma] at hmem
  rcases List.mem_cons.1 hmem with rfl | hmem
  · have : (Text.encode 0x2C).codes = [0x2C] := by decide
    simp only [Entry.covers, this, Bool.false_eq_true, if_false, beq_iff_eq] at hcovers
    exact .inl hcovers.symm
  · exact .inr ⟨e, hmem, hcovers⟩

theorem kindOf?_paren (hcomma : o.separator = 0x2C) (hlength : 2 ≤ codes.length) {c : Nat}
    (hc : c ∈ codes)
    (hparen : isParen c = true) : (Lexer.ofOptions o).dictionary.kindOf? codes = none := by
  by_contra hne
  obtain ⟨k, hk⟩ := Option.ne_none_iff_exists'.1 hne
  rcases covered_of_kindOf? hcomma hk with rfl | ⟨e, he, hcovers⟩
  · simp at hlength
  · have hplain := (commonEntries_plain e he).1 (by rw [length_eq_of_covers hcovers]; exact hlength)
    have hmem : e.shade c ∈ e.codes.map e.shade := by
      rw [Entry.covers_iff.1 hcovers]
      exact List.mem_map_of_mem hc
    obtain ⟨d, hd, hshade⟩ := List.mem_map.1 hmem
    simp only [isParen, Bool.or_eq_true, beq_iff_eq] at hparen
    rcases hparen with rfl | rfl
    · exact (hplain d hd).1 hshade
    · exact (hplain d hd).2 hshade

/-- The quotes and the number sign. -/
def isQuote (c : Nat) : Bool := c == 0x22 || c == 0x27 || c == 0x23

theorem kindOf?_quote (hcomma : o.separator = 0x2C) {c : Nat} (hquote : isQuote c = true)
    (more : List Nat) :
    (Lexer.ofOptions o).dictionary.kindOf? (c :: more) = none := by
  have hmem : c ∈ [0x22, 0x27, 0x23] := by
    simpa [isQuote, or_assoc] using hquote
  by_contra hne
  obtain ⟨k, hk⟩ := Option.ne_none_iff_exists'.1 hne
  rcases covered_of_kindOf? hcomma hk with h | ⟨e, he, hcovers⟩
  · cases h
    simp at hmem
  · refine (commonEntries_plain e he).2 c hmem ?_
    rw [← List.head?_map, Entry.covers_iff.1 hcovers]
    rfl

variable {d : Dictionary}

theorem longestUpTo_cases {m n : Nat} (hmn : m ≤ n) :
    d.longestUpTo codes n = d.longestUpTo codes m ∨
    ∃ k l, d.longestUpTo codes n = some (k, l) ∧ m < l := by
  induction n with
  | zero => exact .inl (by rw [Nat.le_zero.1 hmn])
  | succ n ih =>
    rcases Nat.lt_or_ge n m with hlt | hle
    · exact .inl (by rw [Nat.le_antisymm hmn hlt])
    · rw [Dictionary.longestUpTo]
      split
      · exact .inr ⟨_, _, rfl, Nat.lt_succ_of_le hle⟩
      · exact ih hle

/-- The longest fixed string before a parenthesis is the longest one before anything else, unless
that goes on. -/
theorem longest?_parted (hcomma : o.separator = 0x2C) {a : List Glyph} (hne : a ≠ [])
    (b x : List Glyph) {q : Glyph} (hq : isParen q.code = true) :
    (Lexer.ofOptions o).dictionary.longest? (a ++ q :: x) =
      (Lexer.ofOptions o).dictionary.longest? (a ++ b) ∨
      ∃ k m, (Lexer.ofOptions o).dictionary.longest? (a ++ b) = some (k, m) ∧ a.length < m := by
  unfold Dictionary.longest?
  generalize (Lexer.ofOptions o).dictionary.width = w
  rcases Nat.lt_or_ge a.length w with hlt | hge
  · obtain ⟨v, rfl⟩ := Nat.exists_eq_add_of_lt hlt
    have hpos := List.length_pos_iff.2 hne
    have hlength : (a.map (·.code)).length = a.length := List.length_map _
    simp only [Nat.add_assoc, List.take_length_add_append, List.take_succ_cons,
      List.map_append, List.map_cons]
    have hparen : (Lexer.ofOptions o).dictionary.longestUpTo
      (a.map (·.code) ++ q.code :: (x.take v).map (·.code))
        (a.map (·.code) ++ q.code :: (x.take v).map (·.code)).length =
          (Lexer.ofOptions o).dictionary.longestUpTo (a.map (·.code)) a.length := by
      rw [longestUpTo_of_none (m := a.length) (by simp),
        longestUpTo_append _ _ (Nat.le_of_eq hlength.symm)]
      intro k hk hle
      obtain ⟨i, rfl⟩ := Nat.exists_eq_add_of_lt hk
      rw [← hlength, Nat.add_assoc, List.take_length_add_append, List.take_succ_cons]
      refine kindOf?_paren hcomma (by simp; omega) (List.mem_append_right _ List.mem_cons_self) hq
    rw [hparen]
    have hle : a.length ≤ (a.map (·.code) ++ (b.take (v + 1)).map (·.code)).length := by simp
    rcases longestUpTo_cases (d := (Lexer.ofOptions o).dictionary) hle with h | h
    · rw [h, longestUpTo_append _ _ (Nat.le_of_eq hlength.symm)]
      exact .inl rfl
    · exact .inr h
  · rw [List.take_append_of_le_length hge, List.take_append_of_le_length hge]
    exact .inl rfl

theorem longest?_quote (hcomma : o.separator = 0x2C) {g : Glyph} (hquote : isQuote g.code = true)
    (gs : List Glyph) :
    (Lexer.ofOptions o).dictionary.longest? (g :: gs) = none := by
  obtain ⟨w, hw⟩ := Nat.exists_eq_add_of_le' (width_pos o)
  unfold Dictionary.longest?
  simp only [hw, List.take_succ_cons, List.map_cons]
  refine longestUpTo_of_none (Nat.zero_le _) fun k hk _ => ?_
  obtain ⟨i, rfl⟩ := Nat.exists_eq_succ_of_ne_zero (Nat.ne_of_gt hk)
  exact kindOf?_quote hcomma hquote _

/-- The kind of a parenthesis. -/
def parenKind (c : Nat) : Kind := if c = 0x28 then .parenOpen else .parenClose

theorem longest?_paren (hcomma : o.separator = 0x2C) {q : Glyph} (hq : isParen q.code = true)
    (x : List Glyph) :
    (Lexer.ofOptions o).dictionary.longest? (q :: x) = some (parenKind q.code, 1) := by
  have hsymbols : (Lexer.ofOptions o).dictionary.kindOf? [0x28] = some .parenOpen ∧
      (Lexer.ofOptions o).dictionary.kindOf? [0x29] = some .parenClose := by
    rw [dictionary_ofOptions, hcomma]
    decide +kernel
  have hsymbol : (Lexer.ofOptions o).dictionary.kindOf? [q.code] = some (parenKind q.code) := by
    simp only [isParen, Bool.or_eq_true, beq_iff_eq] at hq
    rcases hq with h | h <;> rw [h]
    · exact hsymbols.1
    · exact hsymbols.2
  obtain ⟨w, hw⟩ := Nat.exists_eq_add_of_le' (width_pos o)
  unfold Dictionary.longest?
  simp only [hw, List.take_succ_cons, List.map_cons]
  rw [longestUpTo_of_none (m := 1) (by simp)]
  · rw [Dictionary.longestUpTo, List.take_succ_cons, List.take_zero, hsymbol]
  · intro k hk hle
    obtain ⟨i, rfl⟩ := Nat.exists_eq_add_of_lt hk
    refine kindOf?_paren hcomma ?_ List.mem_cons_self hq
    rw [List.length_take]
    omega

end Dictionary

section Front

variable {o : Options} {g q : Glyph} {a b x : List Glyph} {k : Kind} {n : Nat}

/-- At a quote stands no number and no name. -/
theorem unquoted_quote (hpoint : o.decimalPoint = 0x2E) (hquote : isQuote g.code = true)
    (gs : List Glyph) :
    scanHex (g :: gs) = none ∧ scanReal o (g :: gs) = none ∧ scanInteger (g :: gs) = none ∧
      scanIdentifier (g :: gs) = none := by
  obtain ⟨code, bytes⟩ := g
  have hcode : (code = 0x22 ∨ code = 0x27) ∨ code = 0x23 := by simpa [isQuote] using hquote
  have hreal : ∀ c : Nat, run Text.isAsciiDigit (⟨c, bytes⟩ :: gs) = 0 → c ≠ 0x2E →
      scanReal o (⟨c, bytes⟩ :: gs) = none := by
    intro c hrun hc
    simp [scanReal, hrun, one, hpoint, hc]
  rcases hcode with (rfl | rfl) | rfl
  all_goals exact ⟨rfl, hreal _ rfl (by decide), rfl, rfl⟩

/-- The scanners of quoted tokens. -/
def quotedScanners : List (Kind × Scanner) :=
  [(.string, scanString), (.char, scanChar), (.timeSpan, scanTimeSpan), (.dateTime, scanDateTime)]

/-- A quoted token is the longest one where it stands. -/
theorem longestScan_quoted (hpoint : o.decimalPoint = 0x2E) {gs : List Glyph} {s : Scanner}
    (hs : (k, s) ∈ quotedScanners) (h : s gs = some n) :
    longestScan (scanners o) gs = some (k, n) := by
  simp only [quotedScanners, List.mem_cons, Prod.mk.injEq, List.not_mem_nil, or_false] at hs
  rcases hs with ⟨rfl, rfl⟩ | ⟨rfl, rfl⟩ | ⟨rfl, rfl⟩ | ⟨rfl, rfl⟩
  all_goals
    have hpos := both_one_pos h
    obtain ⟨g, rest, m, rfl, hg, h', -⟩ := exists_of_both_one h
    rw [beq_iff_eq] at hg
    obtain ⟨hhex, hreal, hinteger, hname⟩ := unquoted_quote hpoint (g := g) (by rw [hg]; rfl) rest
    simp only [longestScan, longer, scanners, List.foldl_cons, List.foldl_nil, hhex, hreal,
      hinteger, hname, h, Option.map_none, Option.getD_none, if_pos hpos]
  · have hchar : scanChar (g :: rest) = none := both_mark_eq_none (by rw [hg]; decide) _
    have hspan : scanTimeSpan (g :: rest) = none := both_mark_eq_none (by rw [hg]; decide) _
    have hdate : scanDateTime (g :: rest) = none := both_mark_eq_none (by rw [hg]; decide) _
    simp only [hchar, hspan, hdate]
  · have hstring : scanString (g :: rest) = none := both_mark_eq_none (by rw [hg]; decide) _
    have hspan : scanTimeSpan (g :: rest) = none := both_mark_eq_none (by rw [hg]; decide) _
    have hdate : scanDateTime (g :: rest) = none := both_mark_eq_none (by rw [hg]; decide) _
    simp only [hstring, hspan, hdate, Option.map_none, Option.getD_none, if_pos hpos]
  · have hstring : scanString (g :: rest) = none := both_mark_eq_none (by rw [hg]; decide) _
    have hchar : scanChar (g :: rest) = none := both_mark_eq_none (by rw [hg]; decide) _
    -- A second number sign starts no date.
    obtain ⟨g', rest, -, rfl, hg', -⟩ := exists_of_both_one h'
    have hdate : scanDateTime (g :: g' :: rest) = none := by
      simp [scanDateTime, parts, both, mark, one, many1, run, hg, beq_iff_eq.1 hg']
    simp only [hstring, hchar, hdate, Option.map_none, Option.getD_none, if_pos hpos]
  · have hstring : scanString (g :: rest) = none := both_mark_eq_none (by rw [hg]; decide) _
    have hchar : scanChar (g :: rest) = none := both_mark_eq_none (by rw [hg]; decide) _
    -- A time span has two number signs in front, and a date only one.
    have hspan : scanTimeSpan (g :: rest) = none := by
      refine Option.eq_none_iff_forall_ne_some.2 fun n hn => ?_
      obtain ⟨y, ys, m, heq, -, hn, -⟩ := exists_of_both_one hn
      cases heq
      obtain ⟨g', rest, -, rfl, hg', -⟩ := exists_of_both_one hn
      simp [both, many1, run, beq_iff_eq.1 hg'] at h'
    simp only [hstring, hchar, hspan, Option.map_none, Option.getD_none, if_pos hpos]

theorem sealed_of_mem {s : Scanner} (hs : (k, s) ∈ quotedScanners) : Sealed s := by
  simp only [quotedScanners, List.mem_cons, Prod.mk.injEq, List.not_mem_nil, or_false] at hs
  rcases hs with ⟨-, rfl⟩ | ⟨-, rfl⟩ | ⟨-, rfl⟩ | ⟨-, rfl⟩
  · exact sealed_string
  · exact sealed_char
  · exact sealed_timeSpan
  · exact sealed_dateTime

/-- At a quote only the scanners of quoted tokens take something. -/
theorem mem_quotedScanners (hpoint : o.decimalPoint = 0x2E) (hquote : isQuote g.code = true)
    {gs : List Glyph} {s : Scanner} (hs : (k, s) ∈ scanners o) (h : s (g :: gs) = some n) :
    (k, s) ∈ quotedScanners := by
  obtain ⟨hhex, hreal, hinteger, hname⟩ := unquoted_quote hpoint hquote gs
  simp only [scanners, List.mem_cons, Prod.mk.injEq, List.not_mem_nil, or_false] at hs
  rcases hs with ⟨-, rfl⟩ | ⟨-, rfl⟩ | ⟨-, rfl⟩ | ⟨rfl, rfl⟩ | ⟨rfl, rfl⟩ | ⟨rfl,
    rfl⟩ | ⟨rfl, rfl⟩ | ⟨-, rfl⟩
  · cases hhex.symm.trans h
  · cases hreal.symm.trans h
  · cases hinteger.symm.trans h
  · exact List.mem_cons_self
  · exact List.mem_cons_of_mem _ List.mem_cons_self
  · exact List.mem_cons_of_mem _ (List.mem_cons_of_mem _ List.mem_cons_self)
  · exact List.mem_cons_of_mem _ (List.mem_cons_of_mem _
      (List.mem_cons_of_mem _ List.mem_cons_self))
  · cases hname.symm.trans h

theorem tokenAt?_eq_longestScan (h : (Lexer.ofOptions o).dictionary.longest? a = none) :
    (Lexer.ofOptions o).tokenAt? a = longestScan (scanners o) a := by
  unfold Lexer.tokenAt?
  rw [h]
  rfl

/-- A token that ends before some characters is the same one if a parenthesis takes their place. -/
theorem tokenAt?_parted (hpoint : o.decimalPoint = 0x2E) (hcomma : o.separator = 0x2C)
    (hq : isParen q.code = true)
    (h : (Lexer.ofOptions o).tokenAt? (g :: a ++ b) = some (k, n)) (hn : n ≤ (g :: a).length)
    (x : List Glyph) :
    (Lexer.ofOptions o).tokenAt? (g :: a ++ q :: x) = some (k, n) := by
  obtain ⟨hfixed, hscanned⟩ := le_of_tokenAt? h
  have hlong : (Lexer.ofOptions o).dictionary.longest? (g :: a ++ q :: x) =
      (Lexer.ofOptions o).dictionary.longest? (g :: a ++ b) := by
    rcases longest?_parted hcomma (List.cons_ne_nil g a) b x hq with h | ⟨k', m, h, hm⟩
    · exact h
    · exact absurd (Nat.le_trans (hfixed k' m h) hn) (Nat.not_le_of_lt hm)
  have hscan : longestScan (scanners o) (g :: a ++ q :: x) =
      longestScan (scanners o) (g :: a ++ b) := by
    cases hquote : isQuote g.code with
    | false =>
      have hunquoted : g.code ≠ 0x22 ∧ g.code ≠ 0x27 ∧ g.code ≠ 0x23 := by
        simpa [isQuote, and_assoc] using hquote
      have hsame : ∀ {k : Kind} {s : Scanner}, (k, s) ∈ scanners o → Parted s →
          s (g :: a ++ q :: x) = s (g :: a ++ b) := by
        intro k s hs hparted
        rcases hparted (g :: a) b x q hq with h | ⟨m, h, hm⟩
        · exact h
        · exact absurd (Nat.le_trans (hscanned _ hs m h) hn) (Nat.not_le_of_lt hm)
      have hreal : isParen o.decimalPoint = false := by rw [hpoint]; rfl
      simp only [List.cons_append] at hsame ⊢
      rw [longestScan_unquoted hunquoted, longestScan_unquoted hunquoted]
      simp only [longestScan, longer, List.foldl_cons, List.foldl_nil,
        hsame (k := .hex) (by simp [scanners]) parted_hex,
        hsame (k := .real) (by simp [scanners]) (parted_real hreal),
        hsame (k := .integer) (by simp [scanners]) parted_integer,
        hsame (k := .identifier) (by simp [scanners]) parted_identifier]
    | true =>
      have hlongest :=
        (tokenAt?_eq_longestScan (longest?_quote hcomma hquote (a ++ b))).symm.trans h
      obtain ⟨s, hs, hn'⟩ := longestScan_scanned hlongest
      have hs' := mem_quotedScanners hpoint hquote hs hn'
      refine Eq.trans ?_ hlongest.symm
      exact longestScan_quoted hpoint hs' (sealed_of_mem hs' _ b _ n hn' hn)
  unfold Lexer.tokenAt? at h ⊢
  have hoptions : (Lexer.ofOptions o).options = o := rfl
  rw [hoptions] at h ⊢
  rw [hlong, hscan]
  exact h

/-- A parenthesis is a token of its own. -/
theorem tokenAt?_paren (hpoint : o.decimalPoint = 0x2E) (hcomma : o.separator = 0x2C)
    (hq : isParen q.code = true)
    (x : List Glyph) : (Lexer.ofOptions o).tokenAt? (q :: x) = some (parenKind q.code, 1) := by
  have hsign : q.code = 0x28 ∨ q.code = 0x29 := by simpa [isParen] using hq
  refine tokenAt?_of_longest? (scanners_sign (.inr hsign) fun h => ?_) (longest?_paren hcomma hq x)
  have hdot : q.code = 0x2E := h.trans hpoint
  omega

end Front

section Reading

variable {l : Lexer} {a b w : List Glyph} {ts us : List Token}

/-- A token without its place. -/
def Token.bare (t : Token) : Token := { t with place := nowhere t.place }

inductive Reads (l : Lexer) : List Glyph → List Glyph → List Token → Prop
  | nil {b : List Glyph} : Reads l [] b []
  | blank {g : Glyph} {a b : List Glyph} {ts : List Token} (hg : isBlank g.code = true)
      (h : Reads l a b ts) :
    Reads l (g :: a) b ts
  | token {g : Glyph} {w a b : List Glyph} {k : Kind} {n : Nat} {ts : List Token}
      (hg : isBlank g.code = false)
    (htoken : l.tokenAt? (g :: (w ++ (a ++ b))) = some (k, n)) (hn : n - 1 = w.length)
    (h : Reads l a b ts) :
    Reads l (g :: (w ++ a)) b (⟨k, (g :: w).flatMap (·.bytes), {}⟩ :: ts)

theorem Reads.append (h : Reads l a (w ++ b) ts) (h' : Reads l w b us) :
    Reads l (a ++ w) b (ts ++ us) := by
  generalize hb : w ++ b = c at h
  induction h with
  | nil => exact h'
  | blank hg _ ih => exact .blank hg (ih hb)
  | @token g v a c k n ts hg htoken hn _ ih =>
    subst hb
    rw [List.cons_append, List.append_assoc]
    rw [← List.append_assoc a] at htoken
    exact .token hg htoken hn (ih rfl)

/-- What stands before other characters stands before a parenthesis. -/
theorem Reads.before_paren {o : Options} (hpoint : o.decimalPoint = 0x2E)
    (hcomma : o.separator = 0x2C)
    (h : Reads (.ofOptions o) a b ts) {q : Glyph} (hq : isParen q.code = true) (x : List Glyph) :
    Reads (.ofOptions o) a (q :: x) ts := by
  induction h with
  | nil => exact .nil
  | blank hg _ ih => exact .blank hg ih
  | @token g w a b k n ts hg htoken hn _ ih =>
    refine .token hg ?_ hn ih
    have hle : n ≤ (g :: (w ++ a)).length := by
      rw [List.length_cons, List.length_append]
      omega
    have hparted := tokenAt?_parted hpoint hcomma hq (a := w ++ a) (by simpa using htoken) hle x
    simpa using hparted

/-- A parenthesis is read as its token. -/
theorem reads_paren {o : Options} (hpoint : o.decimalPoint = 0x2E)
    (hcomma : o.separator = 0x2C) {q : Glyph} (hq : isParen q.code = true) (b : List Glyph) :
    Reads (.ofOptions o) [q] b [⟨parenKind q.code, q.bytes, {}⟩] := by
  have hblank : isBlank q.code = false := by
    have hsign : q.code = 0x28 ∨ q.code = 0x29 := by simpa [isParen] using hq
    rcases hsign with h | h <;> rw [h] <;> rfl
  have h := Reads.token (w := []) (a := []) hblank (tokenAt?_paren hpoint hcomma hq b) rfl .nil
  simpa using h

/-- The lexemes of some characters, without their places. -/
def Lexer.bare (l : Lexer) (gs : List Glyph) : List Lexeme :=
  (l.lexemes {} gs).1.map (Lexeme.moved nowhere)

/-- What is read comes in front of the lexemes of what follows. -/
theorem Reads.bare (h : Reads l a b ts) : l.bare (a ++ b) = ts.map .token ++ l.bare b := by
  induction h with
  | nil => rfl
  | blank hg _ ih =>
    rw [List.cons_append, Lexer.bare, Lexer.lexemes, if_pos hg, bare_lexemes _ {}]
    exact ih
  | @token g w a b k n ts hg htoken hn _ ih =>
    rw [List.cons_append, Lexer.bare, Lexer.lexemes, if_neg (by simp [hg]),
      List.append_assoc, htoken]
    simp only [hn, List.take_left, List.drop_left, List.map_cons, bare_lexemes _ {}]
    exact congrArg (Lexeme.token ⟨k, (g :: w).flatMap (·.bytes), {}⟩ :: ·) ih

/-- A token among others: what stands before it, what it is read from, and what stands behind it. -/
theorem lexemes_split {p : Place} {gs : List Glyph} {front back : List Token} {t : Token}
    (h : (l.lexemes p gs).1 = (front ++ t :: back).map .token) : ∃ a w b, gs = a ++ (w ++ b) ∧
      Reads l a (w ++ b) (front.map Token.bare) ∧ Reads l w b [t.bare] ∧ t.place = p.afterAll a ∧
      t.image = w.flatMap (·.bytes) ∧ (l.lexemes (p.afterAll a) (w ++ b)).1 =
        (t :: back).map .token ∧
      (l.lexemes (p.afterAll (a ++ w)) b).1 = back.map .token := by
  fun_induction Lexer.lexemes l p gs generalizing front with
  | case1 p => simp at h
  | case2 p g rest hblank ih =>
    obtain ⟨a, w, b, rfl, hfront, ht, hplace, himage, hat, hback⟩ := ih h
    exact ⟨g :: a, w, b, rfl, .blank hblank hfront, ht, hplace, himage, hat, hback⟩
  | case3 p g rest hblank htoken more last heq ih =>
    cases front <;> cases h
  | case4 p g rest hblank kind n htoken taken more last heq =>
    rename_i ih
    have hlength : n - 1 = (rest.take (n - 1)).length := by
      have := tokenAt?_le htoken
      rw [List.length_cons] at this
      rw [List.length_take]
      omega
    have htake : rest.take (n - 1) ++ rest.drop (n - 1) = rest := List.take_append_drop _ _
    cases front with
    | nil =>
      rw [List.nil_append, List.map_cons] at h
      obtain ⟨hhead, htail⟩ := List.cons.inj h
      cases hhead
      refine ⟨[], taken, rest.drop (n - 1), ?_, .nil, ?_, rfl, rfl, ?_, ?_⟩
      · rw [List.nil_append, List.cons_append, htake]
      · have hread := Reads.token (l := l) (a := []) (b := rest.drop (n - 1))
          (by simpa using hblank)
          (by rw [List.nil_append, htake]; exact htoken) hlength .nil
        rw [List.append_nil] at hread
        exact hread
      · rw [List.cons_append, htake, Lexer.lexemes, if_neg hblank]
        simp only [Place.afterAll, List.foldl_nil, htoken]
        exact congrArg _ ((congrArg Prod.fst heq).trans htail)
      · rw [← htail, List.nil_append, heq]
    | cons f front =>
      rw [List.cons_append, List.map_cons] at h
      obtain ⟨hhead, htail⟩ := List.cons.inj h
      cases hhead
      rw [heq] at ih
      obtain ⟨a, w, b, hdrop, hfront, ht, hplace, himage, hat, hback⟩ := ih htail
      have hplaces : ∀ gs, p.afterAll (g :: (rest.take (n - 1) ++ gs)) =
        (p.afterAll taken).afterAll gs := fun gs => by
        rw [Place.afterAll, ← List.cons_append, List.foldl_append]
        rfl
      refine ⟨g :: (rest.take (n - 1) ++ a), w, b, ?_, ?_, ht, ?_, himage, ?_, ?_⟩
      · rw [List.cons_append, List.append_assoc, ← hdrop, htake]
      · refine .token (by simpa using hblank) ?_ hlength hfront
        rw [← hdrop, htake]
        exact htoken
      · rw [hplaces, hplace]
      · rw [hplaces, hat]
      · rw [List.cons_append, List.append_assoc, hplaces, hback]

/-- Lexemes that are tokens apart from their places. -/
theorem exists_tokens {ls : List Lexeme} {ts : List Token}
    (h : ls.map (Lexeme.moved nowhere) = ts.map .token) :
    ∃ us : List Token, ls = us.map .token ∧ us.map Token.bare = ts := by
  induction ls generalizing ts with
  | nil =>
    rw [List.map_nil, eq_comm, List.map_eq_nil_iff] at h
    exact ⟨[], rfl, h.symm⟩
  | cons x ls ih =>
    obtain ⟨t, ts, rfl, ht, hts⟩ := List.map_eq_cons_iff.1 h.symm
    obtain ⟨us, rfl, rfl⟩ := ih hts.symm
    cases x with
    | stray code place => cases ht
    | token u =>
      cases ht
      exact ⟨u :: us, rfl, rfl⟩

end Reading

section Grouped

/-- A text with the part between two offsets in parentheses. -/
def grouped (text : Text) (start stop : Nat) : Text :=
  text.take start ++ 0x28 :: ((text.drop start).take (stop - start) ++ 0x29 :: text.drop stop)

def Token.stop (t : Token) : Nat := t.place.offset + t.image.length

def openParen : Token := ⟨.parenOpen, [0x28], {}⟩

def closeParen : Token := ⟨.parenClose, [0x29], {}⟩

theorem grouped_append (u v w : Text) :
    grouped (u ++ (v ++ w)) u.length (u.length + v.length) = u ++ 0x28 :: (v ++ 0x29 :: w) := by
  unfold grouped
  rw [List.take_left, List.drop_left, Nat.add_sub_cancel_left, List.take_left,
    List.drop_length_add_append, List.drop_left]

/-- The characters of a text with parentheses set between them. -/
theorem glyphs_grouped {text : Text} {a b c : List Glyph} (h : text.glyphs = a ++ (b ++ c)) :
    (grouped text (a.flatMap (·.bytes)).length
      ((a.flatMap (·.bytes)).length + (b.flatMap (·.bytes)).length)).glyphs =
      a ++ opening :: (b ++ closing :: c) := by
  have htext : text = a.flatMap (·.bytes) ++ (b.flatMap (·.bytes) ++ c.flatMap (·.bytes)) := by
    rw [← Text.flatMap_bytes_glyphs text, h, List.flatMap_append, List.flatMap_append]
  have hascii : ∀ (p : UInt8) (x : Text), p < 0x80 →
      Text.glyphs (p :: x) = ⟨p.toNat, [p]⟩ :: x.glyphs := by
    intro p x hp
    have hdecode : Text.decodeFirst (p :: x) = (p.toNat, 1) := if_pos hp
    rw [Text.glyphs_eq_cons (List.cons_ne_nil p x), hdecode]
    rfl
  rw [htext] at h ⊢
  obtain ⟨hinner, hfront⟩ := Text.glyphs_cut h rfl
  obtain ⟨hback, hmiddle⟩ := Text.glyphs_cut hinner rfl
  rw [grouped_append, hfront 0x28 _ rfl, hascii 0x28 _ (by decide), hmiddle 0x29 _ rfl,
    hascii 0x29 _ (by decide), hback]
  rfl

/-- Tokens in parentheses are read as they are without, between the tokens of the parentheses. -/
theorem read_grouped {o : Options} (hpoint : o.decimalPoint = 0x2E)
    (hcomma : o.separator = 0x2C) {text : Text}
    {front middle back : List Token} {first last : Token} (hfirst : middle.head? = some first)
    (hlast : middle.getLast? = some last)
    (h : ((Lexer.ofOptions o).read text).1 = (front ++ (middle ++ back)).map .token) :
    ∃ us : List Token, ((Lexer.ofOptions o).read (grouped text first.place.offset last.stop)).1 =
      us.map .token ∧
      us.map Token.bare =
        (front ++ openParen :: (middle ++ closeParen :: back)).map Token.bare := by
  obtain ⟨rest, rfl⟩ : ∃ rest, middle = first :: rest := List.head?_eq_some_iff.1 hfirst
  obtain ⟨init, hinit⟩ : ∃ init, first :: rest = init ++ [last] := List.getLast?_eq_some_iff.1 hlast
  rw [read_eq, Lexer.outline, List.cons_append] at h
  obtain ⟨a, w, b, hglyphs, hfront, -, hstart, -, hat, -⟩ := lexemes_split h
  rw [← List.cons_append, hinit, List.append_assoc, List.singleton_append] at hat
  obtain ⟨a', w', c, hrest, hinner, hend, hstop, himage, -, hback⟩ := lexemes_split hat
  rw [hrest, ← List.append_assoc a'] at hglyphs
  have hmiddle := hinner.append hend
  rw [← List.map_singleton (f := Token.bare), ← List.map_append, ← hinit] at hmiddle
  have hoffsets : first.place.offset = (a.flatMap (·.bytes)).length ∧
      last.stop = (a.flatMap (·.bytes)).length + ((a' ++ w').flatMap (·.bytes)).length := by
    rw [Token.stop, hstop, hstart, himage]
    simp only [Place.offset_afterAll, List.flatMap_append, List.length_append]
    omega
  have hread := (hfront.before_paren hpoint hcomma (q := opening) rfl _).append
    ((reads_paren hpoint hcomma (q := opening) rfl _).append
      ((hmiddle.before_paren hpoint hcomma (q := closing) rfl c).append
        (reads_paren hpoint hcomma (q := closing) rfl c)))
  have hbehind : (Lexer.ofOptions o).bare c = (back.map Token.bare).map .token := by
    rw [Lexer.bare, bare_lexemes _ ((({} : Place).afterAll a).afterAll (a' ++ w')), hback,
      List.map_map, List.map_map]
    rfl
  have hbare := hread.bare
  rw [hbehind, ← List.map_append] at hbare
  have hnew : a ++ opening :: ((a' ++ w') ++ closing :: c) = a ++
    ([opening] ++ (a' ++ w' ++ [closing])) ++ c := by simp
  have hlexemes : ((Lexer.ofOptions o).read (grouped text first.place.offset last.stop)).1.map
    (Lexeme.moved nowhere) =
      (Lexer.ofOptions o).bare (a ++ ([opening] ++ (a' ++ w' ++ [closing])) ++ c) := by
    rw [read_eq, Lexer.outline, Lexer.bare, ← hnew, ← glyphs_grouped hglyphs,
      hoffsets.1, hoffsets.2]
  refine exists_tokens (hlexemes.trans (hbare.trans (congrArg _ ?_)))
  simp [Token.bare, nowhere, openParen, closeParen, parenKind, opening, closing]

end Grouped

end Lexical

end Formulary
