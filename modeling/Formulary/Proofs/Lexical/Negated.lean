import Formulary.Proofs.Lexical.Ending

/-!
# A text in parentheses behind a minus sign

The tokens of `-(t)` are the signs and the tokens of `t`, which only stand at other places.
-/

namespace Formulary

open Text (Glyph closing)

namespace Lexical

section Signs

variable {o : Options}

theorem width_pos (o : Options) : 1 ≤ (Lexer.ofOptions o).dictionary.width := by
  obtain ⟨c, hc, -⟩ := Text.codes_encode o.separator
  rw [dictionary_ofOptions, Dictionary.width, List.foldl_cons, hc]
  exact le_foldl_width _ _

/-- A symbol that no longer string starts with is the longest one at the front. -/
theorem longest?_symbol (hvalid : o.fault? = none) {g : Glyph} {rest : List Glyph} {k : Kind}
    (hsymbol : isSymbol g.code = true) (hk : commonEntries.kindOf? [g.code] = some k)
    (halone : g.code = 0x2D ∨ g.code = 0x28 ∨ rest = []) :
    (Lexer.ofOptions o).dictionary.longest? (g :: rest) = some (k, 1) := by
  obtain ⟨w, hw⟩ := Nat.exists_eq_add_of_le' (width_pos o)
  have hup : ∀ (codes : List Nat) (n : Nat), n ≤ codes.length →
    (codes = [] ∨ g.code = 0x2D ∨ g.code = 0x28) →
      (Lexer.ofOptions o).dictionary.longestUpTo (g.code :: codes) (n + 1) = some (k, 1) := by
    intro codes n hn hcodes
    induction n with
    | zero =>
      rw [Dictionary.longestUpTo, List.take_succ_cons, List.take_zero,
        kindOf?_symbol hvalid hsymbol, hk]
    | succ n ih =>
      have hhead : g.code = 0x2D ∨ g.code = 0x28 := by
        rcases hcodes with rfl | h
        · simp at hn
        · exact h
      have hnone : (Lexer.ofOptions o).dictionary.kindOf?
          ((g.code :: codes).take (n + 1 + 1)) = none := by
        refine kindOf?_eq_none hvalid (by rw [List.length_take, List.length_cons]; omega) ?_
        rw [List.take_succ_cons, List.head?_cons]
        exact hhead.imp (congrArg some) fun h => .inl (congrArg some h)
      rw [Dictionary.longestUpTo, hnone]
      exact ih (Nat.le_of_succ_le hn)
  unfold Dictionary.longest?
  rw [hw, List.take_succ_cons, List.map_cons]
  refine hup _ _ (Nat.le_refl _) ?_
  rcases halone with h | h | rfl
  · exact .inr (.inl h)
  · exact .inr (.inr h)
  · exact .inl (by simp)

/-- Where no scanner takes anything, a fixed string is the token. -/
theorem tokenAt?_of_longest? {l : Lexer} {gs : List Glyph} {k : Kind} {n : Nat}
    (hnone : ∀ entry ∈ scanners l.options, entry.2 gs = none)
    (h : l.dictionary.longest? gs = some (k, n)) :
    l.tokenAt? gs = some (k, n) := by
  have hscan : longestScan (scanners l.options) gs = none := by
    cases hscan : longestScan (scanners l.options) gs with
    | none => rfl
    | some taken =>
      obtain ⟨scan, hmem, hn⟩ := longestScan_scanned hscan
      exact absurd (hn.symm.trans (hnone _ hmem)) nofun
  unfold Lexer.tokenAt?
  rw [hscan, h]

/-- The minus sign as a character. -/
def dash : Glyph := ⟨0x2D, [0x2D]⟩

def opening : Glyph := ⟨0x28, [0x28]⟩

/-- No scanner takes a sign, except that a real can start with its decimal point. -/
theorem scanners_sign {g : Glyph} {gs : List Glyph}
    (hg : g.code = 0x2D ∨ g.code = 0x28 ∨ g.code = 0x29)
    (hreal : g.code = o.decimalPoint → o.requireDigits = false → run Text.isAsciiDigit gs = 0) :
    ∀ entry ∈ scanners o, entry.2 (g :: gs) = none := by
  obtain ⟨code, bytes⟩ := g
  simp only at hg hreal
  have hdigit : run Text.isAsciiDigit (⟨code, bytes⟩ :: gs) = 0 := by
    rcases hg with rfl | rfl | rfl <;> rfl
  have hpoint : scanReal o (⟨code, bytes⟩ :: gs) = none := by
    simp only [scanReal, hdigit, List.drop_zero]
    split
    · rename_i hone
      have heq : code = o.decimalPoint := by
        by_contra hne
        simp [one, hne] at hone
      split
      · rfl
      · rename_i hrequire
        simp [parts, both, many1, hreal heq (by simpa using hrequire)]
    · rfl
  simp only [scanners, List.forall_mem_cons, List.not_mem_nil, false_implies,
    implies_true, and_true]
  refine ⟨?_, hpoint, ?_, ?_, ?_, ?_, ?_, ?_⟩
  all_goals rcases hg with rfl | rfl | rfl <;> rfl

/-- A closing parenthesis alone. -/
theorem tokenAt?_closing (hvalid : o.fault? = none) :
    (Lexer.ofOptions o).tokenAt? [closing] = some (.parenClose, 1) :=
  tokenAt?_of_longest? (scanners_sign (.inr (.inr rfl)) fun _ _ => rfl)
    (longest?_symbol hvalid (by decide) commonEntries_signs.2.2 (.inr (.inr rfl)))

theorem tokenAt?_dash (hvalid : o.fault? = none) (gs : List Glyph) :
    (Lexer.ofOptions o).tokenAt? (dash :: opening :: gs) = some (.minus, 1) :=
  tokenAt?_of_longest? (scanners_sign (.inl rfl) fun _ _ => rfl)
    (longest?_symbol hvalid (by decide) commonEntries_signs.1 (.inl rfl))

theorem longest?_opening (hvalid : o.fault? = none) {g : Glyph} (hg : g.code = 0x28)
    (gs : List Glyph) :
    (Lexer.ofOptions o).dictionary.longest? (g :: gs) = some (.parenOpen, 1) :=
  longest?_symbol hvalid (by rw [hg]; decide) (hg ▸ commonEntries_signs.2.1) (.inr (.inl hg))

theorem tokenAt?_opening (hvalid : o.fault? = none) {g : Glyph} (hg : g.code = 0x28)
    {gs : List Glyph}
    (hreal : o.decimalPoint = 0x28 → o.requireDigits = false → run Text.isAsciiDigit gs = 0) :
    (Lexer.ofOptions o).tokenAt? (g :: gs) = some (.parenOpen, 1) :=
  tokenAt?_of_longest? (scanners_sign (.inr (.inl hg)) fun h => hreal (h.symm.trans hg))
    (longest?_opening hvalid hg gs)

/-- The closing parenthesis is one more token, and no other changes. -/
theorem lexemes_append (hvalid : o.fault? = none) (p : Place) (gs : List Glyph) :
    (Lexer.ofOptions o).lexemes p (gs ++ [closing]) =
      (((Lexer.ofOptions o).lexemes p gs).1 ++
        [Lexeme.token ⟨.parenClose, [0x29], ((Lexer.ofOptions o).lexemes p gs).2⟩],
        ((Lexer.ofOptions o).lexemes p gs).2.after closing) := by
  fun_induction Lexer.lexemes (Lexer.ofOptions o) p gs with
  | case1 p =>
    rw [List.nil_append, Lexer.lexemes, if_neg (by decide), tokenAt?_closing hvalid]
    simp only [Nat.sub_self, List.take_zero, List.drop_zero]
    rw [Lexer.lexemes]
    rfl
  | case2 p g rest hblank ih => rw [List.cons_append, Lexer.lexemes, if_pos hblank, ih]
  | case3 p g rest hblank htoken more last heq ih =>
    have htoken' := (tokenAt?_append hvalid (List.cons_ne_nil g rest)).trans htoken
    rw [List.cons_append] at htoken' ⊢
    rw [Lexer.lexemes, if_neg hblank, htoken']
    simp only [ih, heq, List.cons_append]
  | case4 p g rest hblank kind n htoken taken more last heq ih =>
    have htoken' := (tokenAt?_append hvalid (List.cons_ne_nil g rest)).trans htoken
    have hle : n - 1 ≤ rest.length := by
      have := tokenAt?_le htoken
      rw [List.length_cons] at this
      omega
    rw [List.cons_append] at htoken' ⊢
    rw [Lexer.lexemes, if_neg hblank, htoken']
    simp only [List.take_append_of_le_length hle, List.drop_append_of_le_length hle]
    rw [ih, heq]
    rfl

end Signs

section Moved

/-- A lexeme at another place. -/
def Lexeme.moved (f : Place → Place) : Lexeme → Lexeme
  | .token t => .token { t with place := f t.place }
  | .stray code p => .stray code (f p)

/-- The change of places that forgets them. -/
def nowhere : Place → Place := fun _ => {}

/-- A change of places that goes along with what stands between them. -/
def Carries (f : Place → Place) : Prop := ∀ p g, 1 ≤ p.line → f (Place.after p g) = (f p).after g

theorem one_le_line_after {p : Place} (g : Glyph) (h : 1 ≤ p.line) : 1 ≤ (p.after g).line := by
  unfold Place.after
  split
  · exact Nat.le_add_left 1 _
  · exact h

theorem one_le_line_afterAll {p : Place} (gs : List Glyph) (h : 1 ≤ p.line) :
    1 ≤ (p.afterAll gs).line := by
  induction gs generalizing p with
  | nil => exact h
  | cons g gs ih => exact ih (one_le_line_after g h)

theorem Carries.afterAll {f : Place → Place} (hf : Carries f) {p : Place} (gs : List Glyph)
    (h : 1 ≤ p.line) :
    f (p.afterAll gs) = (f p).afterAll gs := by
  induction gs generalizing p with
  | nil => rfl
  | cons g gs ih =>
    rw [Place.afterAll, Place.afterAll, List.foldl_cons, List.foldl_cons, ← hf p g h]
    exact ih (one_le_line_after g h)

/-- Elsewhere in a text the lexemes are the same at other places. -/
theorem Carries.lexemes {f : Place → Place} (hf : Carries f) (l : Lexer) {p : Place}
    (gs : List Glyph) (h : 1 ≤ p.line) :
    l.lexemes (f p) gs = ((l.lexemes p gs).1.map (Lexeme.moved f), f (l.lexemes p gs).2) := by
  fun_induction Lexer.lexemes l p gs with
  | case1 p =>
    rw [Lexer.lexemes]
    rfl
  | case2 p g rest hblank ih =>
    rw [Lexer.lexemes, if_pos hblank, ← hf p g h, ih (one_le_line_after g h)]
  | case3 p g rest hblank htoken more last heq ih =>
    rw [Lexer.lexemes, if_neg hblank, htoken]
    simp only [← hf p g h, ih (one_le_line_after g h), heq]
    rfl
  | case4 p g rest hblank kind n htoken taken more last heq ih =>
    rw [Lexer.lexemes, if_neg hblank, htoken]
    simp only [← hf.afterAll _ h]
    rw [ih (one_le_line_afterAll taken h), heq]
    rfl

/-- Without their places, lexemes do not depend on where a text starts. -/
theorem bare_lexemes {l : Lexer} (p q : Place) (gs : List Glyph) :
    (l.lexemes p gs).1.map (Lexeme.moved nowhere) =
      (l.lexemes q gs).1.map (Lexeme.moved nowhere) := by
  fun_induction Lexer.lexemes l p gs generalizing q with
  | case1 p => rw [Lexer.lexemes]
  | case2 p g rest hblank ih =>
    rw [ih (q.after g)]
    conv_rhs => rw [Lexer.lexemes, if_pos hblank]
  | case3 p g rest hblank htoken more last heq ih =>
    have hmore := ih (q.after g)
    rw [heq] at hmore
    conv_rhs => rw [Lexer.lexemes, if_neg hblank, htoken]
    exact congrArg (Lexeme.stray g.code {} :: ·) hmore
  | case4 p g rest hblank kind n htoken taken more last heq ih =>
    have hmore := ih (q.afterAll taken)
    rw [heq] at hmore
    conv_rhs => rw [Lexer.lexemes, if_neg hblank, htoken]
    exact congrArg (Lexeme.token ⟨kind, taken.flatMap (·.bytes), {}⟩ :: ·) hmore

end Moved

/-- The place of what stands behind the two signs. -/
def Place.inside (p : Place) : Place :=
  ⟨p.offset + 2, p.line, if p.line = 1 then p.column + 2 else p.column⟩

theorem carries_inside : Carries Place.inside := by
  intro p g h
  unfold Place.after Place.inside
  split
  · simp only [Place.mk.injEq]
    exact ⟨by omega, trivial, if_neg (by omega)⟩
  · simp only [Place.mk.injEq]
    exact ⟨by omega, trivial, by split <;> omega⟩

/-- A text in parentheses behind a minus sign. -/
def negated (t : Text) : Text := Text.ofString "-(" ++ t ++ Text.ofString ")"

theorem glyphs_negated (t : Text) : (negated t).glyphs =
    dash :: opening :: (t.glyphs ++ [closing]) := by
  have hsigns : negated t = 0x2D :: 0x28 :: (t ++ [0x29]) := rfl
  rw [hsigns, ← Text.glyphs_append]
  rfl

def minusToken : Token := ⟨.minus, [0x2D], {}⟩

def openToken : Token := ⟨.parenOpen, [0x28], ⟨1, 1, 2⟩⟩

/-- The lexemes of a text in parentheses behind a minus sign. -/
theorem read_negated {o : Options} (hvalid : o.fault? = none) (t : Text)
    (hreal : o.decimalPoint = 0x28 → o.requireDigits = false → run Text.isAsciiDigit t.glyphs = 0) :
    ((Lexer.ofOptions o).read (negated t)).1 = .token minusToken :: .token openToken ::
      (((Lexer.ofOptions o).read t).1.map (Lexeme.moved Place.inside) ++
        [Lexeme.token ⟨.parenClose, [0x29], ((Lexer.ofOptions o).read t).2.place.inside⟩]) := by
  have hopening : o.decimalPoint = 0x28 → o.requireDigits = false →
      run Text.isAsciiDigit (t.glyphs ++ [closing]) = 0 := by
    rw [run_append rfl]
    exact hreal
  have hinside := carries_inside.lexemes (Lexer.ofOptions o) (p := {}) t.glyphs (Nat.le_refl 1)
  simp only [read_eq, Lexer.outline]
  rw [glyphs_negated, Lexer.lexemes, if_neg (by decide), tokenAt?_dash hvalid]
  simp only [Nat.sub_self, List.take_zero, List.drop_zero]
  rw [Lexer.lexemes, if_neg (by decide), tokenAt?_opening hvalid rfl hopening]
  simp only [Nat.sub_self, List.take_zero, List.drop_zero]
  have hplace : ((({} : Place).afterAll [dash]).afterAll [opening]) = ({} : Place).inside := rfl
  rw [hplace, lexemes_append hvalid, hinside]
  rfl

end Lexical

end Formulary
