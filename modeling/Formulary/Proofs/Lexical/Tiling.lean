import Formulary.Proofs.Lexical.Grouped
import Formulary.Proofs.Text.Characters

/-!
# Lexemes and the bytes they cover

The lexemes of a text cover its characters one after another, with nothing but blanks between them
(`Tiled`). So reading a text loses nothing (`lossless_tokenize`): tokens are slices of the text that
do not overlap, and a byte outside of them belongs to a blank or to exactly one character that is
reported where it stands. A lexer that is asked for token after token gives them all and then the
end for ever (`calls_lossless`), each at a place that agrees with a plain count (`calls_counted`).
-/

namespace Formulary

open Text (Glyph)

namespace Text

def CharacterAt (t : Text) (i : Nat) (g : Glyph) : Prop :=
  ∃ a b, t.glyphs = a ++ g :: b ∧ (a.flatMap (·.bytes)).length = i

/-- Every byte is one of a character. -/
theorem exists_character {gs : List Glyph} {i : Nat} (h : i < (gs.flatMap (·.bytes)).length) :
    ∃ (a : List Glyph) (g : Glyph) (b : List Glyph), gs = a ++ g :: b ∧
      (a.flatMap (·.bytes)).length ≤ i ∧ i < (a.flatMap (·.bytes)).length + g.bytes.length := by
  induction gs generalizing i with
  | nil => simp at h
  | cons g gs ih =>
    by_cases hi : i < g.bytes.length
    · exact ⟨[], g, gs, rfl, Nat.zero_le _, by simpa using hi⟩
    · rw [List.flatMap_cons, List.length_append] at h
      obtain ⟨a, g', b, rfl, hle, hlt⟩ := ih (i := i - g.bytes.length) (by omega)
      refine ⟨g :: a, g', b, rfl, ?_, ?_⟩
      all_goals
        rw [List.flatMap_cons, List.length_append]
        omega

/-- No byte is one of two characters. -/
theorem character_unique {a a' b b' : List Glyph} {g g' : Glyph} {i : Nat}
    (h : a ++ g :: b = a' ++ g' :: b') (hle : (a.flatMap (·.bytes)).length ≤ i)
    (hlt : i < (a.flatMap (·.bytes)).length + g.bytes.length)
    (hle' : (a'.flatMap (·.bytes)).length ≤ i)
    (hlt' : i < (a'.flatMap (·.bytes)).length + g'.bytes.length) :
    a = a' ∧ g = g' := by
  induction a generalizing a' i with
  | nil =>
    cases a' with
    | nil => exact ⟨rfl, (List.cons.inj h).1⟩
    | cons x a' =>
      rw [List.nil_append, List.cons_append] at h
      obtain ⟨rfl, -⟩ := List.cons.inj h
      simp only [List.flatMap_nil, List.flatMap_cons, List.length_append,
        List.length_nil] at hlt hle'
      omega
  | cons x a ih =>
    cases a' with
    | nil =>
      rw [List.nil_append, List.cons_append] at h
      obtain ⟨rfl, -⟩ := List.cons.inj h
      simp only [List.flatMap_nil, List.flatMap_cons, List.length_append,
        List.length_nil] at hlt' hle
      omega
    | cons y a' =>
      rw [List.cons_append, List.cons_append] at h
      obtain ⟨rfl, hrest⟩ := List.cons.inj h
      simp only [List.flatMap_cons, List.length_append] at hle hlt hle' hlt'
      obtain ⟨rfl, rfl⟩ := ih (i := i - x.bytes.length) hrest (by omega) (by omega)
        (by omega) (by omega)
      exact ⟨rfl, rfl⟩

end Text

namespace Lexical

/-- Lexemes cover characters from one place to another: each token some of them, each stray one, and
only blanks are left out. -/
inductive Tiled : Place → List Glyph → List Lexeme → Place → Prop
  | done {p : Place} : Tiled p [] [] p
  | blank {p q : Place} {g : Glyph} {gs : List Glyph} {ls : List Lexeme}
      (hg : isBlank g.code = true)
    (h : Tiled (p.after g) gs ls q) : Tiled p (g :: gs) ls q
  | stray {p q : Place} {g : Glyph} {gs : List Glyph} {ls : List Lexeme}
      (hg : isBlank g.code = false)
    (h : Tiled (p.after g) gs ls q) : Tiled p (g :: gs) (.stray g.code p :: ls) q
  | token {p q : Place} {w gs : List Glyph} {ls : List Lexeme} (k : Kind) (hw : w ≠ [])
    (h : Tiled (p.afterAll w) gs ls q) : Tiled p (w ++ gs)
    (.token ⟨k, w.flatMap (·.bytes), p⟩ :: ls) q

theorem lexemes_tiled (l : Lexer) (p : Place) (gs : List Glyph) :
    Tiled p gs (l.lexemes p gs).1 (l.lexemes p gs).2 := by
  fun_induction Lexer.lexemes l p gs with
  | case1 p => exact .done
  | case2 p g rest hblank ih => exact .blank hblank ih
  | case3 p g rest hblank htoken more last heq ih =>
    rw [heq] at ih
    exact .stray (by simpa using hblank) ih
  | case4 p g rest hblank kind n htoken taken more last heq ih =>
    rw [heq] at ih
    have h := Tiled.token kind (List.cons_ne_nil g (rest.take (n - 1))) ih
    rw [List.cons_append, List.take_append_drop] at h
    exact h

inductive Accounts (ls : List Lexeme) (r : Place) (g : Glyph) : Prop
  | blank (h : isBlank g.code = true) : Accounts ls r g
  | token {t : Token} (ht : .token t ∈ ls) (hstart : t.place.offset ≤ r.offset)
    (hstop : r.offset + g.bytes.length ≤ t.stop) : Accounts ls r g
  | stray (h : isBlank g.code = false) (hmem : .stray g.code r ∈ ls) : Accounts ls r g

theorem Accounts.cons {ls : List Lexeme} {r : Place} {g : Glyph}
    (h : Accounts ls r g) (x : Lexeme) :
    Accounts (x :: ls) r g := by
  cases h with
  | blank h => exact .blank h
  | token ht hstart hstop => exact .token (List.mem_cons_of_mem x ht) hstart hstop
  | stray h hmem => exact .stray h (List.mem_cons_of_mem x hmem)

namespace Tiled

variable {p q : Place} {gs : List Glyph} {ls : List Lexeme}

theorem last_eq (h : Tiled p gs ls q) : q = p.afterAll gs := by
  induction h with
  | done => rfl
  | blank _ _ ih => exact ih
  | stray _ _ ih => exact ih
  | token k _ _ ih => rw [ih, Place.afterAll_append]

/-- A token covers characters where it stands. -/
theorem token_covers (h : Tiled p gs ls q) {t : Token} (ht : .token t ∈ ls) :
    ∃ a w b, gs = a ++ (w ++ b) ∧ w ≠ [] ∧ t.image = w.flatMap (·.bytes) ∧
      t.place = p.afterAll a := by
  induction h with
  | done => cases ht
  | @blank p q g gs ls _ _ ih =>
    obtain ⟨a, w, b, rfl, hcovers⟩ := ih ht
    exact ⟨g :: a, w, b, rfl, hcovers⟩
  | @stray p q g gs ls _ _ ih =>
    obtain ⟨a, w, b, rfl, hcovers⟩ := ih (by simpa using ht)
    exact ⟨g :: a, w, b, rfl, hcovers⟩
  | @token p q w gs ls k hw _ ih =>
    rcases List.mem_cons.1 ht with ht | ht
    · cases ht
      exact ⟨[], w, gs, rfl, hw, rfl, rfl⟩
    · obtain ⟨a, v, b, rfl, hv, himage, hplace⟩ := ih ht
      exact ⟨w ++ a, v, b, by simp, hv, himage, by rw [hplace, Place.afterAll_append]⟩

theorem low (h : Tiled p gs ls q) : ∀ x ∈ ls, p.offset ≤ x.offset := by
  induction h with
  | done => exact nofun
  | @blank p q g gs ls _ _ ih =>
    intro x hx
    have := ih x hx
    rw [Place.offset_after] at this
    omega
  | @stray p q g gs ls _ _ ih =>
    intro x hx
    rcases List.mem_cons.1 hx with rfl | hx
    · exact Nat.le_refl _
    · have := ih x hx
      rw [Place.offset_after] at this
      omega
  | @token p q w gs ls k _ _ ih =>
    intro x hx
    rcases List.mem_cons.1 hx with rfl | hx
    · exact Nat.le_refl _
    · exact Nat.le_trans (Place.offset_le_afterAll p w) (ih x hx)

/-- Nothing starts within a token. -/
theorem apart (h : Tiled p gs ls q) : ls.Pairwise fun x y =>
    ∀ t, x = .token t → t.stop ≤ y.offset := by
  induction h with
  | done => exact .nil
  | blank _ _ ih => exact ih
  | stray _ _ ih => exact .cons (fun _ _ => nofun) ih
  | @token p q w gs ls k _ h ih =>
    refine .cons (fun y hy t ht => ?_) ih
    cases ht
    have := h.low y hy
    rw [Place.offset_afterAll] at this
    exact this

/-- A stray character stands in no token. -/
theorem stray_covers (h : Tiled p gs ls q) {c : Nat} {r : Place} (hr : .stray c r ∈ ls) :
    ∃ (a : List Glyph) (g : Glyph) (b : List Glyph), gs = a ++ g :: b ∧
      isBlank g.code = false ∧ c = g.code ∧ r = p.afterAll a ∧
      ∀ t, .token t ∈ ls → t.stop ≤ r.offset ∨ r.offset + g.bytes.length ≤ t.place.offset := by
  induction h with
  | done => cases hr
  | @blank p q g gs ls _ _ ih =>
    obtain ⟨a, g', b, rfl, hcovers⟩ := ih hr
    exact ⟨g :: a, g', b, rfl, hcovers⟩
  | @stray p q g gs ls hg h ih =>
    rcases List.mem_cons.1 hr with hr | hr
    · cases hr
      refine ⟨[], g, gs, rfl, hg, rfl, rfl, fun t ht => .inr ?_⟩
      have := h.low (.token t) (by simpa using ht)
      rw [Place.offset_after] at this
      exact this
    · obtain ⟨a, g', b, rfl, hblank, hcode, hplace, hapart⟩ := ih hr
      exact ⟨g :: a, g', b, rfl, hblank, hcode, hplace, fun t ht => hapart t (by simpa using ht)⟩
  | @token p q w gs ls k _ h ih =>
    have hbehind : .stray c r ∈ ls := by simpa using hr
    obtain ⟨a, g', b, rfl, hblank, hcode, hplace, hapart⟩ := ih hbehind
    refine ⟨w ++ a, g', b, by simp, hblank, hcode, by rw [hplace,
      Place.afterAll_append], fun t ht => ?_⟩
    rcases List.mem_cons.1 ht with ht | ht
    · cases ht
      have := h.low _ hbehind
      rw [Place.offset_afterAll] at this
      exact .inl this
    · exact hapart t ht

/-- Every character is a blank, one that a token covers, or a stray one. -/
theorem accounts (h : Tiled p gs ls q) {a b : List Glyph} {g : Glyph} (hgs : gs = a ++ g :: b) :
    Accounts ls (p.afterAll a) g := by
  induction h generalizing a with
  | done => simp at hgs
  | @blank p q x gs ls hx _ ih =>
    cases a with
    | nil =>
      obtain ⟨rfl, -⟩ := List.cons.inj hgs
      exact .blank hx
    | cons y a =>
      obtain ⟨rfl, htail⟩ := List.cons.inj hgs
      exact ih htail
  | @stray p q x gs ls hx _ ih =>
    cases a with
    | nil =>
      obtain ⟨rfl, -⟩ := List.cons.inj hgs
      exact .stray hx List.mem_cons_self
    | cons y a =>
      obtain ⟨rfl, htail⟩ := List.cons.inj hgs
      exact (ih htail).cons _
  | @token p q w gs ls k _ _ ih =>
    -- the character is one of the token's or stands behind them all
    rcases List.append_eq_append_iff.1 hgs with ⟨c, rfl, hc⟩ | ⟨c, rfl, hc⟩
    · rw [Place.afterAll_append]
      exact (ih hc).cons _
    · cases c with
      | nil =>
        have hbehind := ih (a := []) hc.symm
        rw [List.append_nil] at hbehind ⊢
        exact hbehind.cons _
      | cons x c =>
        obtain ⟨rfl, -⟩ := List.cons.inj hc
        refine .token List.mem_cons_self (Place.offset_le_afterAll p a) ?_
        rw [Place.offset_afterAll, Token.stop]
        simp only [List.flatMap_append, List.flatMap_cons, List.length_append]
        omega

end Tiled

/-- What is read of a text covers it. -/
theorem tiled_read (l : Lexer) (text : Text) :
    Tiled {} text.glyphs (l.read text).1 (l.read text).2.place := by
  rw [read_eq]
  exact lexemes_tiled l {} text.glyphs

theorem offset_read (l : Lexer) (text : Text) : (l.read text).2.place.offset = text.length := by
  rw [(tiled_read l text).last_eq, offset_start, Text.flatMap_bytes_glyphs]

theorem Lexeme.token?_eq_some {x : Lexeme} {t : Token} : x.token? = some t ↔ x = .token t := by
  cases x <;> simp [Lexeme.token?]

theorem Lexeme.problem?_eq_some {x : Lexeme} {e : Problem} :
    x.problem? = some e ↔ ∃ code place, x = .stray code place ∧ e = .stray code place := by
  cases x with
  | token t => simp [Lexeme.problem?]
  | stray code place => simp [Lexeme.problem?, eq_comm]

/-- Tokens and problems account for every byte of a text. -/
structure Lossless (text : Text) (tokens : List Token) (problems : List Problem) : Prop where
  /-- A token is a slice of the text. -/
  image : ∀ t ∈ tokens, t.image ≠ [] ∧ (text.drop t.place.offset).take t.image.length = t.image
  /-- Tokens stand one behind another. -/
  apart : tokens.Pairwise fun t u => t.place.offset < u.place.offset ∧ t.stop ≤ u.place.offset
  /-- Problems are in order. -/
  rising : problems.Pairwise fun e f => e.place.offset < f.place.offset
  /-- A problem is about the character where it stands, which is no blank and in no token. -/
  reported : ∀ e ∈ problems, ∃ g, text.CharacterAt e.place.offset g ∧ isBlank g.code = false ∧
    e = .stray g.code e.place ∧
    ∀ t ∈ tokens, t.stop ≤ e.place.offset ∨ e.place.offset + g.bytes.length ≤ t.place.offset
  /-- A byte is one of a token, of a blank, or of the character of exactly one problem. -/
  accounted : ∀ i < text.length,
    (∃ t ∈ tokens, t.place.offset ≤ i ∧ i < t.stop) ∨
    (∃ k g, text.CharacterAt k g ∧ isBlank g.code = true ∧ k ≤ i ∧ i < k + g.bytes.length) ∨
    ∃! e, e ∈ problems ∧
      ∃ g, text.CharacterAt e.place.offset g ∧ e.place.offset ≤ i ∧
        i < e.place.offset + g.bytes.length

section Lossless

variable {text : Text} {ls : List Lexeme} {q : Place}

/-- A problem is about one character only. -/
theorem Tiled.problem_unique (h : Tiled {} text.glyphs ls q) {a b : List Glyph} {g : Glyph}
    (hglyphs : text.glyphs = a ++ g :: b) {i : Nat} (hle : (a.flatMap (·.bytes)).length ≤ i)
    (hlt : i < (a.flatMap (·.bytes)).length + g.bytes.length) {e : Problem}
    (he : e ∈ ls.filterMap Lexeme.problem?)
    {g' : Glyph} (hg' : text.CharacterAt e.place.offset g') (hle' : e.place.offset ≤ i)
    (hlt' : i < e.place.offset + g'.bytes.length) :
    e = .stray g.code (({} : Place).afterAll a) := by
  obtain ⟨x, hx, hproblem⟩ := List.mem_filterMap.1 he
  obtain ⟨code, place, rfl, rfl⟩ := Lexeme.problem?_eq_some.1 hproblem
  obtain ⟨a', g'', b', hsplit, -, rfl, rfl, -⟩ := h.stray_covers hx
  obtain ⟨c, d, hchar, hoffset⟩ := hg'
  have hplace : (({} : Place).afterAll a').offset = (a'.flatMap (·.bytes)).length := offset_start a'
  simp only [Problem.stray] at hle' hlt' hoffset ⊢
  obtain ⟨rfl, rfl⟩ := Text.character_unique (hglyphs.symm.trans hchar) hle hlt (hoffset ▸ hle')
    (hoffset ▸ hlt')
  -- the character of the problem and the one at its offset are the same
  have hpos : 0 < g''.bytes.length :=
    List.length_pos_of_ne_nil (Text.glyphs_bytes_ne_nil g'' (by rw [hsplit]; simp))
  obtain ⟨rfl, rfl⟩ := Text.character_unique (i := (a.flatMap (·.bytes)).length)
    (hglyphs.symm.trans hsplit)
    (Nat.le_refl _) (by omega) (by omega) (by omega)
  rfl

/-- Reading a text loses nothing. -/
theorem lossless_tokenize (l : Lexer) (text : Text) :
    Lossless text (l.tokenize text).1 (l.tokenize text).2 := by
  have hrise := read_rising l text
  have htiled := tiled_read l text
  rw [Lexer.tokenize]
  generalize (l.read text).1 = ls at hrise htiled ⊢
  refine ⟨fun t ht => ?_, ?_, ?_, fun e he => ?_, fun i hi => ?_⟩
  · simp only [List.mem_filterMap, Lexeme.token?_eq_some, exists_eq_right] at ht
    obtain ⟨a, w, b, hsplit, hw, himage, hplace⟩ := htiled.token_covers ht
    rw [himage, hplace, offset_start]
    refine ⟨fun hnil => ?_, slice_eq hsplit⟩
    obtain ⟨g, w, rfl⟩ := List.exists_cons_of_ne_nil hw
    rw [List.flatMap_cons, List.append_eq_nil_iff] at hnil
    exact Text.glyphs_bytes_ne_nil g (by rw [hsplit]; simp) hnil.1
  · rw [List.pairwise_filterMap]
    refine (hrise.sorted.and htiled.apart).imp fun {x y} hxy t ht u hu => ?_
    rw [Lexeme.token?_eq_some] at ht hu
    subst ht hu
    exact ⟨hxy.1, hxy.2 t rfl⟩
  · rw [List.pairwise_filterMap]
    refine hrise.sorted.imp fun {x y} hxy e he f hf => ?_
    obtain ⟨c, r, rfl, rfl⟩ := Lexeme.problem?_eq_some.1 he
    obtain ⟨c', r', rfl, rfl⟩ := Lexeme.problem?_eq_some.1 hf
    exact hxy
  · obtain ⟨x, hx, hproblem⟩ := List.mem_filterMap.1 he
    obtain ⟨code, place, rfl, rfl⟩ := Lexeme.problem?_eq_some.1 hproblem
    obtain ⟨a, g, b, hsplit, hblank, rfl, rfl, hapart⟩ := htiled.stray_covers hx
    refine ⟨g, ⟨a, b, hsplit, (offset_start a).symm⟩, hblank, rfl, fun t ht => hapart t ?_⟩
    simpa [List.mem_filterMap, Lexeme.token?_eq_some] using ht
  · rw [← Text.flatMap_bytes_glyphs text] at hi
    obtain ⟨a, g, b, hsplit, hle, hlt⟩ := Text.exists_character hi
    have hstart := offset_start a
    cases htiled.accounts hsplit with
    | blank h => exact .inr (.inl ⟨_, g, ⟨a, b, hsplit, rfl⟩, h, hle, hlt⟩)
    | @token t ht hfrom hto =>
      refine .inl ⟨t, ?_, by omega, by omega⟩
      simpa [List.mem_filterMap, Lexeme.token?_eq_some] using ht
    | stray h hmem =>
      refine .inr (.inr ⟨.stray g.code (({} : Place).afterAll a),
        ⟨?_, g, ⟨a, b, hsplit, hstart.symm⟩, ?_, ?_⟩, ?_⟩)
      · exact List.mem_filterMap.2 ⟨_, hmem, rfl⟩
      · exact hstart ▸ hle
      · exact hstart ▸ hlt
      · rintro e ⟨he, g', hg', hle', hlt'⟩
        exact htiled.problem_unique hsplit hle hlt he hg' hle' hlt'

end Lossless

/-- Every token and every stray character of a text is at a place that agrees with a plain count. -/
theorem Tiled.counted {text : Text} {ls : List Lexeme} {q : Place} (h : Tiled {} text.glyphs ls q) :
    q.Counted text ∧ (∀ t, .token t ∈ ls → t.place.Counted text) ∧ ∀ c r, .stray c r ∈ ls →
      r.Counted text := by
  refine ⟨?_, fun t ht => ?_, fun c r hr => ?_⟩
  · rw [h.last_eq]
    exact counted_afterAll (List.append_nil _).symm
  · obtain ⟨a, w, b, hsplit, -, -, hplace⟩ := h.token_covers ht
    rw [hplace]
    exact counted_afterAll hsplit
  · obtain ⟨a, g, b, hsplit, -, -, hplace, -⟩ := h.stray_covers hr
    rw [hplace]
    exact counted_afterAll hsplit

section Calls

variable (l : Lexer) (text : Text)

/-- What a call gives, and what has been reported by then. -/
theorem call_spec (n : Nat) :
    ((l.reset text).call n).1 = (l.tokenize text).1[n]?.getD (l.read text).2 ∧
      ∃ more, ((l.reset text).call n).2.problems ++ more = (l.tokenize text).2 ∧
        ((l.tokenize text).1.length ≤ n → more = []) := by
  have hlast : (l.lexemes {} text.glyphs).2 = placeOf text.glyphs :=
    (lexemes_tiled l {} text.glyphs).last_eq
  rw [Lexer.tokenize, read_eq, Lexer.outline, hlast]
  exact (Cursor.stands_reset l text).call rfl n

/-- Asking a lexer for token after token loses nothing: the tokens come in order, together with what
is reported they account for every byte, and then the end of the text comes for ever. -/
theorem calls_lossless :
    Lossless text (l.tokenize text).1 (l.tokenize text).2 ∧
      (∀ t ∈ (l.tokenize text).1, t.kind ≠ .eof) ∧
      (∀ n t, (l.tokenize text).1[n]? = some t →
        ((l.reset text).call n).1 = t ∧ ((l.reset text).call n).2.problems
          <+: (l.tokenize text).2) ∧
      ∀ n, (l.tokenize text).1.length ≤ n →
        ((l.reset text).call n).1.kind = .eof ∧
          ((l.reset text).call n).1.place.offset = text.length ∧
          ((l.reset text).call n).2.problems = (l.tokenize text).2 := by
  refine ⟨lossless_tokenize l text, fun t ht => ?_, fun n t ht => ?_, fun n hn => ?_⟩
  · obtain ⟨x, hx, htoken⟩ := List.mem_filterMap.1 ht
    rw [Lexeme.token?_eq_some] at htoken
    exact (read_rising l text).inner t (htoken ▸ hx)
  · obtain ⟨htoken, more, hmore, -⟩ := call_spec l text n
    rw [ht] at htoken
    exact ⟨htoken, more, hmore⟩
  · obtain ⟨htoken, more, hmore, hend⟩ := call_spec l text n
    rw [List.getElem?_eq_none hn, Option.getD_none] at htoken
    rw [hend hn, List.append_nil] at hmore
    rw [htoken]
    exact ⟨kind_read l text, offset_read l text, hmore⟩

/-- The token of every call and all that has been reported by then are at places that agree with a
plain count. -/
theorem calls_counted (n : Nat) :
    ((l.reset text).call n).1.place.Counted text ∧ ∀ e ∈ ((l.reset text).call n).2.problems,
      e.place.Counted text := by
  obtain ⟨hlast, htokens, hstrays⟩ := (tiled_read l text).counted
  obtain ⟨htoken, more, hmore, -⟩ := call_spec l text n
  rw [Lexer.tokenize] at htoken hmore
  dsimp only at htoken hmore
  constructor
  · rw [htoken]
    cases hget : ((l.read text).1.filterMap Lexeme.token?)[n]? with
    | none => exact hlast
    | some t =>
      obtain ⟨x, hx, hsome⟩ := List.mem_filterMap.1 (List.mem_of_getElem? hget)
      rw [Lexeme.token?_eq_some] at hsome
      exact htokens t (hsome ▸ hx)
  · intro e he
    have hmem : e ∈ (l.read text).1.filterMap Lexeme.problem? :=
      hmore ▸ List.mem_append_left more he
    obtain ⟨x, hx, hproblem⟩ := List.mem_filterMap.1 hmem
    obtain ⟨code, place, rfl, rfl⟩ := Lexeme.problem?_eq_some.1 hproblem
    exact hstrays code place hx

end Calls

end Lexical

end Formulary
