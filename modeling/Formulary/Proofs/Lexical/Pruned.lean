import Mathlib.Data.List.Find
import Mathlib.Data.List.Infix
import Formulary.Proofs.Lexical.Negated

/-!
# Fixed strings that a text can hold

A fixed string with a character that a text has not, in any case, stands nowhere in the text. A
dictionary without such strings reads the text alike, and so does one that spells the others as they
stand in the text. It is the one to calculate with: it is small, and the case of letters has been
looked at once.
-/

namespace Formulary

open Text (Glyph)

namespace Lexical

/-- Whether all characters of an entry are among these, which are folded. -/
def Entry.within (folded : List Nat) (e : Entry) : Bool :=
  e.codes.all fun c => folded.contains (Text.directFold c)

/-- The lexer with the fixed strings that a text can hold. -/
def Lexer.pruned (l : Lexer) (text : Text) : Lexer :=
  { l with dictionary := l.dictionary.filter (·.within (text.codes.map Text.directFold)) }

section Dictionary

variable {d : Dictionary} {codes : List Nat} {p : Entry → Bool}

/-- An entry that stands for a string has no character, up to case, that the string has not. -/
theorem Entry.within_of_covers {e : Entry} {all : List Nat} (hsub : codes ⊆ all)
    (h : e.covers codes = true) :
    e.within (all.map Text.directFold) = true := by
  refine List.all_eq_true.2 fun c hc => List.contains_iff_mem.2 ?_
  have hshade : e.shade c ∈ codes.map e.shade := Entry.covers_iff.1 h ▸ List.mem_map_of_mem hc
  obtain ⟨x, hx, hsame⟩ := List.mem_map.1 hshade
  refine List.mem_map.2 ⟨x, hsub hx, ?_⟩
  rw [Entry.shade_direct] at hsame
  dsimp only at hsame
  split at hsame
  · exact hsame
  · rw [hsame]

theorem kindOf?_filter (h : ∀ e ∈ d, e.covers codes = true → p e = true) :
    Dictionary.kindOf? (d.filter p) codes = d.kindOf? codes := by
  have hsame : (d.filter p).find? (·.covers codes) = d.find? (·.covers codes) := by
    rw [List.find?_filter]
    refine List.find?_congr fun e he => ?_
    have := h e he
    cases hp : p e <;> cases hc : e.covers codes <;> simp_all
  rw [Dictionary.kindOf?, hsame, Dictionary.kindOf?]

theorem longestUpTo_congr {d' : Dictionary} (h : ∀ cs, cs <:+: codes →
    d'.kindOf? cs = d.kindOf? cs) (n : Nat) :
    d'.longestUpTo codes n = d.longestUpTo codes n := by
  induction n with
  | zero => rfl
  | succ n ih =>
    rw [Dictionary.longestUpTo, Dictionary.longestUpTo, ih, h _ (List.take_prefix _ _).isInfix]

end Dictionary

/-- The strings of a text that an entry stands for, each an entry that says which case it is in. -/
def Entry.standing (codes : List Nat) (e : Entry) : List Entry :=
  if e.ignoreCase then
    ((codes.tails.map (·.take e.codes.length)).filter fun cs =>
      e.codes.map Text.directFold == cs.map Text.directFold).map (⟨·, false, e.kind⟩)
  else [e]

/-- The lexer with the fixed strings that stand in a text, spelled as they stand there. -/
def Lexer.standing (l : Lexer) (text : Text) : Lexer :=
  { l with dictionary := (l.pruned text).dictionary.flatMap (·.standing text.codes) }

section Standing

variable {d : Dictionary} {codes all : List Nat}

/-- What stands for a string that an entry stands for is of its kind. -/
theorem Entry.covers_standing {e x : Entry} (hx : x ∈ e.standing all) (h : x.covers codes = true) :
    e.covers codes = true ∧ x.kind = e.kind := by
  rw [Entry.standing] at hx
  split at hx
  next hcase =>
    obtain ⟨cs, hcs, rfl⟩ := List.mem_map.1 hx
    have hfolds := (List.mem_filter.1 hcs).2
    have hsame : cs = codes := by simpa [Entry.covers] using h
    refine ⟨?_, rfl⟩
    rw [Entry.covers_iff, Entry.shade_direct, ← hsame]
    simpa [hcase] using hfolds
  next =>
    obtain rfl := List.mem_singleton.1 hx
    exact ⟨h, rfl⟩

theorem Entry.exists_standing {e : Entry} (hcodes : codes <:+: all) (h : e.covers codes = true) :
    ∃ x ∈ e.standing all, x.covers codes = true := by
  rw [Entry.standing]
  split
  next hcase =>
    obtain ⟨t, hprefix, hsuffix⟩ := List.infix_iff_prefix_suffix.1 hcodes
    have hfolds : e.codes.map Text.directFold = codes.map Text.directFold := by
      have hshades := Entry.covers_iff.1 h
      rw [Entry.shade_direct] at hshades
      simpa [hcase] using hshades
    have htake : t.take e.codes.length = codes := by
      rw [length_eq_of_covers h]
      exact (List.prefix_iff_eq_take.1 hprefix).symm
    refine ⟨⟨codes, false, e.kind⟩, List.mem_map_of_mem
      (List.mem_filter.2 ⟨?_, by simpa using hfolds⟩), ?_⟩
    · exact List.mem_map.2 ⟨t, (List.mem_tails _ _).2 hsuffix, htake⟩
    · simp [Entry.covers]
  next => exact ⟨e, List.mem_singleton_self e, h⟩

theorem kindOf?_standing (hcodes : codes <:+: all) :
    Dictionary.kindOf? (d.flatMap (·.standing all)) codes = d.kindOf? codes := by
  have hfind : ((d.flatMap (·.standing all)).find? (·.covers codes)).map (·.kind) =
      (d.find? (·.covers codes)).map (·.kind) := by
    induction d with
    | nil => rfl
    | cons e d ih =>
      rw [List.flatMap_cons, List.find?_append, List.find?_cons]
      cases hcovers : e.covers codes with
      | true =>
        obtain ⟨x, hx, hstands⟩ := Entry.exists_standing hcodes hcovers
        have hsome : ((e.standing all).find? (·.covers codes)).isSome :=
          List.find?_isSome.2 ⟨x, hx, hstands⟩
        obtain ⟨y, hy⟩ := Option.isSome_iff_exists.1 hsome
        have hcovered : y.covers codes = true := by simpa using List.find?_some hy
        have hkind := (Entry.covers_standing (List.mem_of_find?_eq_some hy) hcovered).2
        rw [hy, Option.some_or, Option.map_some, Option.map_some, hkind]
      | false =>
        have hnone : (e.standing all).find? (·.covers codes) = none :=
          List.find?_eq_none.2 fun x hx hstands =>
            Bool.false_ne_true (hcovers.symm.trans (Entry.covers_standing hx hstands).1)
        rw [hnone, Option.none_or, ih]
  rw [Dictionary.kindOf?, hfind, Dictionary.kindOf?]

end Standing

section Reading

variable {l : Lexer}

theorem tokenAt?_congr {d : Dictionary} {gs : List Glyph}
    (h : ∀ cs, cs <:+: gs.map (·.code) → d.kindOf? cs = l.dictionary.kindOf? cs) :
    Lexer.tokenAt? { l with dictionary := d } gs = l.tokenAt? gs := by
  rw [Lexer.tokenAt?, Lexer.tokenAt?, longest?_eq, longest?_eq, longestUpTo_congr h]

/-- The lexemes of characters are the same by a dictionary that gives the same kinds to the strings
that stand there. -/
theorem lexemes_congr {d : Dictionary} (place : Place) (gs : List Glyph)
    (h : ∀ cs, cs <:+: gs.map (·.code) → d.kindOf? cs = l.dictionary.kindOf? cs) :
    Lexer.lexemes { l with dictionary := d } place gs = l.lexemes place gs := by
  fun_induction l.lexemes place gs with
  | case1 => rw [Lexer.lexemes]
  | case2 place g rest hblank ih =>
    rw [Lexer.lexemes, if_pos hblank]
    exact ih fun cs hcs => h cs (hcs.trans (List.suffix_cons _ _).isInfix)
  | case3 place g rest hblank hnone more last hmore ih =>
    rw [Lexer.lexemes, if_neg hblank, tokenAt?_congr h, hnone]
    dsimp only
    rw [ih fun cs hcs => h cs (hcs.trans (List.suffix_cons _ _).isInfix), hmore]
  | case4 place g rest hblank k n hsome taken more last hmore ih =>
    have hdrop : (rest.drop (n - 1)).map (·.code) <:+: (g :: rest).map (·.code) :=
      ((List.drop_suffix _ _).trans (List.suffix_cons _ _)).isInfix.map _
    rw [Lexer.lexemes, if_neg hblank, tokenAt?_congr h, hsome]
    dsimp only
    rw [ih fun cs hcs => h cs (hcs.trans hdrop), hmore]

theorem read_congr {l' : Lexer} {text : Text}
    (h : l'.lexemes {} text.glyphs = l.lexemes {} text.glyphs) :
    l'.read text = l.read text := by
  rw [read_eq, read_eq, Lexer.outline, Lexer.outline, h]

/-- A text is read the same with the fixed strings that it can hold. -/
theorem read_pruned (l : Lexer) (text : Text) : (l.pruned text).read text = l.read text :=
  read_congr (lexemes_congr {} text.glyphs fun _ hcs =>
    kindOf?_filter fun _ _ hcovers => Entry.within_of_covers hcs.subset hcovers)

/-- A text is read the same with the fixed strings that stand in it. -/
theorem read_standing (l : Lexer) (text : Text) : (l.standing text).read text = l.read text :=
  (read_congr (lexemes_congr {} text.glyphs fun _ hcs => kindOf?_standing hcs)).trans
    (read_pruned l text)

/-- The tokens of a text by the fixed strings that stand in it. -/
theorem tokenize_standing (l : Lexer) (text : Text) : l.tokenize text =
    (((l.standing text).outline text).1.filterMap Lexeme.token?,
      ((l.standing text).outline text).1.filterMap Lexeme.problem?) := by
  rw [Lexer.tokenize, ← read_standing, read_eq]

end Reading

end Lexical

end Formulary
