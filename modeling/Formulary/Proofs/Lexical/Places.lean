import Mathlib.Data.List.DropRight
import Formulary.Lexical.Lexeme
import Formulary.Proofs.Text.Characters

/-!
# Places of lexemes

A place is computed from the one before it, a character at a time. It agrees with a plain count in
the bytes of the text: the line counts the line breaks before the offset, and the column the
characters between the last of them and the offset (`counted_afterAll`). Since the characters
between two places can be read on their own, this holds for bytes of any kind.

Lexemes start one after another: every one takes at least one byte, so their offsets rise strictly
up to the end of the text. The end itself is no lexeme: no token of a text has its kind.
-/

namespace Formulary

open Text (Glyph)

namespace Text

theorem glyphsFrom_bytes_ne_nil {skip : Nat} {t : Text} : ∀ g ∈ glyphsFrom skip t,
    g.bytes ≠ [] := by
  induction t generalizing skip with
  | nil =>
    cases skip <;> exact fun g hg => nomatch hg
  | cons b rest ih =>
    cases skip with
    | succ n => exact ih
    | zero =>
      have hpos := decodeFirst_width_pos b rest
      rw [glyphsFrom]
      generalize decodeFirst (b :: rest) = first at hpos
      intro g hg
      rcases List.mem_cons.1 hg with rfl | hg
      · obtain ⟨k, hk⟩ : ∃ k, first.2 = k + 1 := ⟨_, (Nat.succ_pred_eq_of_pos hpos).symm⟩
        simp [hk]
      · exact ih g hg

theorem glyphs_bytes_ne_nil {t : Text} : ∀ g ∈ t.glyphs, g.bytes ≠ [] := glyphsFrom_bytes_ne_nil

def lastLine (t : Text) : Text := t.rtakeWhile (· != 0x0A)

section Bytes

variable {g : Glyph}

/-- The line break is the character of one byte, and no other character has it. -/
theorem Glyph.Spelled.break_cases (h : g.Spelled) :
    g.code = 0x0A ∧ g.bytes = [0x0A] ∨ g.code ≠ 0x0A ∧ ∀ b ∈ g.bytes, b ≠ 0x0A := by
  by_cases hlt : g.code < 0x80
  · have hbytes := h.bytes_of_lt hlt
    by_cases hbreak : g.code = 0x0A
    · rw [hbytes, hbreak]
      exact .inl ⟨rfl, rfl⟩
    · refine .inr ⟨hbreak, fun b hb hzero => ?_⟩
      rw [hbytes, List.mem_singleton] at hb
      have hnat := congrArg UInt8.toNat (hb.symm.trans hzero)
      rw [toNat_toUInt8 (by omega)] at hnat
      exact hbreak hnat
  · refine .inr ⟨fun hbreak => hlt (hbreak ▸ by decide), fun b hb hzero => ?_⟩
    have hle := h.le_of_mem (Nat.le_of_not_lt hlt) hb
    rw [hzero] at hle
    exact absurd hle (by decide)

variable {gs : List Glyph}

theorem count_break (hgs : ∀ g ∈ gs, g.Spelled) :
    (gs.flatMap (·.bytes)).count 0x0A = gs.countP (·.code == 0x0A) := by
  induction gs with
  | nil => rfl
  | cons g gs ih =>
    rw [List.flatMap_cons, List.count_append, List.countP_cons, ih fun x hx =>
      hgs x (List.mem_cons_of_mem g hx)]
    rcases (hgs g List.mem_cons_self).break_cases with ⟨hcode, hbytes⟩ | ⟨hcode, hbytes⟩
    · simp [hcode, hbytes, Nat.add_comm]
    · have hzero : g.bytes.count 0x0A = 0 := List.count_eq_zero.2 fun h => hbytes _ h rfl
      simp [hcode, hzero]

theorem lastLine_append {t u : Text} (hu : ∀ b ∈ u, b ≠ 0x0A) :
    lastLine (t ++ u) = lastLine t ++ u := by
  induction u using List.reverseRecOn with
  | nil => simp
  | append_singleton u b ih =>
    have hb : b ≠ 0x0A := hu b (by simp)
    rw [← List.append_assoc, lastLine, List.rtakeWhile_concat,
      if_pos (by simpa using hb), ← lastLine, ih fun x hx => hu x (by simp [hx]), List.append_assoc]

theorem lastLine_append_of_mem (t : Text) {u : Text} (hu : 0x0A ∈ u) :
    lastLine (t ++ u) = lastLine u := by
  induction u using List.reverseRecOn with
  | nil => cases hu
  | append_singleton u b ih =>
    by_cases hb : b = 0x0A
    · simp [lastLine, hb, ← List.append_assoc]
    · have hmem : 0x0A ∈ u := by simpa [Ne.symm hb] using hu
      have hother : ∀ x ∈ [b], x ≠ (0x0A : UInt8) := by simpa using hb
      rw [← List.append_assoc, lastLine_append hother, lastLine_append hother, ih hmem]

/-- The bytes behind the last line break are those of the characters behind it. -/
theorem lastLine_flatMap (hgs : ∀ g ∈ gs, g.Spelled) :
    lastLine (gs.flatMap (·.bytes)) = (gs.rtakeWhile (·.code != 0x0A)).flatMap (·.bytes) := by
  induction gs using List.reverseRecOn with
  | nil => rfl
  | append_singleton gs g ih =>
    rw [List.flatMap_append, List.flatMap_singleton]
    rcases (hgs g (by simp)).break_cases with ⟨hcode, hbytes⟩ | ⟨hcode, hbytes⟩
    · rw [hbytes, lastLine, List.rtakeWhile_concat, if_neg (by simp), List.rtakeWhile_concat,
        if_neg (by simp [hcode])]
      rfl
    · rw [lastLine_append hbytes, ih fun x hx => hgs x (by simp [hx]),
        List.rtakeWhile_concat, if_pos (by simpa using hcode), List.flatMap_append,
        List.flatMap_singleton]

end Bytes

end Text

namespace Lexical

theorem Place.offset_after (p : Place) (g : Text.Glyph) :
    (p.after g).offset = p.offset + g.bytes.length := by
  unfold Place.after
  split <;> rfl

theorem Place.offset_le_afterAll (p : Place) (gs : List Text.Glyph) :
    p.offset ≤ (p.afterAll gs).offset := by
  induction gs generalizing p with
  | nil => exact Nat.le_refl _
  | cons g gs ih =>
    have hrest := ih (p.after g)
    rw [Place.offset_after] at hrest
    exact Nat.le_trans (Nat.le_add_right _ _) hrest

theorem Place.offset_lt_afterAll (p : Place) {g : Text.Glyph} (hg : g.bytes ≠ [])
    (gs : List Text.Glyph) :
    p.offset < (p.afterAll (g :: gs)).offset := by
  have hrest := Place.offset_le_afterAll (p.after g) gs
  have hpos := List.length_pos_iff.2 hg
  rw [Place.offset_after] at hrest
  exact Nat.lt_of_lt_of_le (Nat.lt_add_of_pos_right hpos) hrest

theorem Place.offset_afterAll (p : Place) (gs : List Glyph) :
    (p.afterAll gs).offset = p.offset + (gs.flatMap (·.bytes)).length := by
  induction gs generalizing p with
  | nil => rfl
  | cons g gs ih =>
    rw [Place.afterAll, List.foldl_cons, ← Place.afterAll, ih, Place.offset_after,
      List.flatMap_cons, List.length_append]
    omega

theorem Place.afterAll_append (p : Place) (a b : List Glyph) :
    p.afterAll (a ++ b) = (p.afterAll a).afterAll b :=
  List.foldl_append

theorem offset_start (a : List Glyph) : (({} : Place).afterAll a).offset =
    (a.flatMap (·.bytes)).length := by
  rw [Place.offset_afterAll]
  exact Nat.zero_add _

/-- A place in a text agrees with a count of what stands before its offset. -/
structure Place.Counted (text : Text) (p : Place) : Prop where
  within : p.offset ≤ text.length
  line : p.line = 1 + (text.take p.offset).count 0x0A
  column : p.column = 1 + Text.characterCount (Text.lastLine (text.take p.offset))

theorem Place.line_le_afterAll (p : Place) (gs : List Glyph) : p.line ≤ (p.afterAll gs).line := by
  induction gs generalizing p with
  | nil => exact Nat.le_refl _
  | cons g gs ih =>
    refine Nat.le_trans ?_ (ih (p.after g))
    unfold Place.after
    split
    · exact Nat.le_succ _
    · exact Nat.le_refl _

/-- On one line every character is one column. -/
theorem Place.column_afterAll {p : Place} {gs : List Glyph}
    (hline : (p.afterAll gs).line = p.line) :
    (p.afterAll gs).column = p.column + gs.length := by
  induction gs generalizing p with
  | nil => rfl
  | cons g gs ih =>
    have hcons : p.afterAll (g :: gs) = (p.after g).afterAll gs := rfl
    rw [hcons] at hline ⊢
    have hle : (p.after g).line ≤ p.line := hline ▸ Place.line_le_afterAll (p.after g) gs
    by_cases hbreak : (g.code == 0x0A) = true
    · rw [Place.after, if_pos hbreak] at hle
      exact absurd hle (Nat.not_succ_le_self _)
    · have hafter : p.after g = ⟨p.offset + g.bytes.length, p.line, p.column + 1⟩ := by
        rw [Place.after, if_neg hbreak]
      rw [hafter] at hline ⊢
      rw [ih hline, List.length_cons]
      simp only
      omega

/-- A place after some characters counts their line breaks and those behind the last one. -/
theorem start_afterAll (gs : List Glyph) :
    (({} : Place).afterAll gs).line = 1 + gs.countP (·.code == 0x0A) ∧
      (({} : Place).afterAll gs).column = 1 + (gs.rtakeWhile (·.code != 0x0A)).length := by
  induction gs using List.reverseRecOn with
  | nil => exact ⟨rfl, rfl⟩
  | append_singleton gs g ih =>
    rw [Place.afterAll_append, Place.afterAll, List.foldl_cons, List.foldl_nil, Place.after]
    by_cases h : g.code = 0x0A
    · simp [h, ih.1, Nat.add_assoc]
    · simp [h, ih, Nat.add_assoc]

theorem slice_eq {text : Text} {a w b : List Glyph} (h : text.glyphs = a ++ (w ++ b)) :
    (text.drop (a.flatMap (·.bytes)).length).take (w.flatMap (·.bytes)).length =
      w.flatMap (·.bytes) := by
  have htext : text = a.flatMap (·.bytes) ++ (w.flatMap (·.bytes) ++ b.flatMap (·.bytes)) := by
    rw [← Text.flatMap_bytes_glyphs text, h, List.flatMap_append, List.flatMap_append]
  rw [htext, List.drop_left, List.take_left]

/-- The place behind some characters of a text agrees with a plain count. -/
theorem counted_afterAll {text : Text} {a b : List Glyph} (h : text.glyphs = a ++ b) :
    (({} : Place).afterAll a).Counted text := by
  have htext : text = a.flatMap (·.bytes) ++ b.flatMap (·.bytes) := by
    rw [← Text.flatMap_bytes_glyphs text, h, List.flatMap_append]
  have hbefore : text.take (({} : Place).afterAll a).offset = a.flatMap (·.bytes) := by
    rw [offset_start, htext, List.take_left]
  have hspelled : ∀ g ∈ a, g.Spelled := fun g hg => Text.spelled_of_mem (by rw [h]; simp [hg])
  obtain ⟨hline, hcolumn⟩ := start_afterAll a
  refine ⟨?_, ?_, ?_⟩
  · rw [offset_start, htext, List.length_append]
    exact Nat.le_add_right _ _
  · rw [hline, hbefore, Text.count_break hspelled]
  · -- the characters of the last line are read from its bytes alone
    have hsplit : text.glyphs = a.rdropWhile (·.code != 0x0A) ++
        (a.rtakeWhile (·.code != 0x0A) ++ b) := by
      rw [h, ← List.append_assoc, List.rdropWhile_append_rtakeWhile]
    rw [hcolumn, hbefore, Text.lastLine_flatMap hspelled, Text.characterCount,
      Text.glyphs_between hsplit]

theorem kindOf?_ne_eof {d : Dictionary} {codes : List Nat} {k : Kind}
    (h : d.kindOf? codes = some k) : k ≠ .eof := by
  obtain ⟨-, hk⟩ := Option.filter_eq_some_iff.1 h
  simpa using hk

theorem longestUpTo_ne_eof {d : Dictionary} {codes : List Nat} {n m : Nat} {k : Kind}
    (h : d.longestUpTo codes n = some (k, m)) : k ≠ .eof := by
  induction n with
  | zero => cases h
  | succ n ih =>
    rw [Dictionary.longestUpTo] at h
    split at h
    · rename_i kind hkind
      cases h
      exact kindOf?_ne_eof hkind
    · exact ih h

/-- The longest token of some scanners is what one of them takes. -/
theorem longestScan_scanned {table : List (Kind × Scanner)} {gs : List Text.Glyph}
    {k : Kind} {n : Nat}
    (h : longestScan table gs = some (k, n)) : ∃ scan, (k, scan) ∈ table ∧ scan gs = some n := by
  revert k n
  unfold longestScan
  refine List.foldlRecOn (motive := fun best =>
    ∀ {k n}, best = some (k, n) → ∃ scan, (k, scan) ∈ table ∧ scan gs = some n)
    table _ ?_ ?_
  · intro k n h
    cases h
  · intro best hbest entry hentry k n hx
    unfold longer at hx
    split at hx
    · exact hbest hx
    · rename_i width hwidth
      split at hx
      · cases hx
        exact ⟨entry.2, hentry, hwidth⟩
      · exact hbest hx

/-- No token has the kind of the end. -/
theorem tokenAt?_ne_eof {l : Lexer} {gs : List Text.Glyph} {k : Kind} {n : Nat}
    (h : l.tokenAt? gs = some (k, n)) :
    k ≠ .eof := by
  have hscan : ∀ {k : Kind} {n : Nat}, longestScan (scanners l.options) gs =
      some (k, n) → k ≠ .eof := by
    intro k n h
    obtain ⟨scan, hmem, -⟩ := longestScan_scanned h
    rintro rfl
    simp [scanners] at hmem
  unfold Lexer.tokenAt? at h
  simp only at h
  split at h
  · rename_i kind n₁ other n₂ hfixed hscanned
    split at h
    · cases h
      exact hscan hscanned
    · cases h
      exact longestUpTo_ne_eof hfixed
  · rename_i fixed hfixed _
    cases h
    exact longestUpTo_ne_eof hfixed
  · exact hscan h

/-- The offset at which a lexeme starts. -/
def Lexeme.offset : Lexeme → Nat
  | .token t => t.place.offset
  | .stray _ p => p.offset

structure Rising (low high : Nat) (ls : List Lexeme) : Prop where
  low : ∀ x ∈ ls, low ≤ x.offset
  high : ∀ x ∈ ls, x.offset < high
  sorted : ls.Pairwise fun x y => x.offset < y.offset
  inner : ∀ t, .token t ∈ ls → t.kind ≠ .eof

namespace Rising

variable {low middle high : Nat} {x : Lexeme} {ls : List Lexeme}

theorem nil : Rising low high [] := ⟨nofun, nofun, .nil, nofun⟩

theorem of_le (h : Rising middle high ls) (hle : low ≤ middle) : Rising low high ls :=
  ⟨fun x hx => Nat.le_trans hle (h.low x hx), h.high, h.sorted, h.inner⟩

/-- A lexeme in front of others that start behind it. -/
theorem cons (h : Rising middle high ls) (hx : x.offset < middle) (hm : middle ≤ high)
    (inner : ∀ t, x = .token t → t.kind ≠ .eof) : Rising x.offset high (x :: ls) := by
  refine ⟨fun y hy => ?_, fun y hy => ?_, .cons (fun y hy => ?_) h.sorted, fun t ht => ?_⟩
  · rcases List.mem_cons.1 hy with rfl | hy
    · exact Nat.le_refl _
    · exact Nat.le_of_lt (Nat.lt_of_lt_of_le hx (h.low y hy))
  · rcases List.mem_cons.1 hy with rfl | hy
    · exact Nat.lt_of_lt_of_le hx hm
    · exact h.high y hy
  · exact Nat.lt_of_lt_of_le hx (h.low y hy)
  · rcases List.mem_cons.1 ht with ht | ht
    · exact inner t ht.symm
    · exact h.inner t ht

/-- What is left after some lexemes. -/
theorem right {front : List Lexeme} (h : Rising low high (front ++ ls)) : Rising low high ls :=
  ⟨fun x hx => h.low x (List.mem_append_right _ hx), fun x hx =>
    h.high x (List.mem_append_right _ hx),
    (List.pairwise_append.1 h.sorted).2.1, fun t ht => h.inner t (List.mem_append_right _ ht)⟩

end Rising

/-- The lexemes of a text start one after another. -/
theorem lexemes_rising (l : Lexer) (p : Place) {gs : List Text.Glyph}
    (hgs : ∀ g ∈ gs, g.bytes ≠ []) :
    p.offset ≤ (l.lexemes p gs).2.offset ∧ Rising p.offset (l.lexemes p gs).2.offset
      (l.lexemes p gs).1 := by
  fun_induction Lexer.lexemes l p gs with
  | case1 p => exact ⟨Nat.le_refl _, .nil⟩
  | case2 p g rest hblank ih =>
    have hle : p.offset ≤ (p.after g).offset := by
      rw [Place.offset_after]
      exact Nat.le_add_right _ _
    obtain ⟨hlast, hrise⟩ := ih fun g hg => hgs g (List.mem_cons_of_mem _ hg)
    exact ⟨Nat.le_trans hle hlast, hrise.of_le hle⟩
  | case3 p g rest hblank htoken more last heq ih =>
    have hlt := Place.offset_lt_afterAll p (hgs g List.mem_cons_self) []
    obtain ⟨hlast, hrise⟩ := ih fun g hg => hgs g (List.mem_cons_of_mem _ hg)
    rw [heq] at hlast hrise
    exact ⟨Nat.le_trans (Nat.le_of_lt hlt) hlast, hrise.cons (x := .stray g.code p) hlt hlast nofun⟩
  | case4 p g rest hblank kind n htoken taken more last heq ih =>
    have hlt := Place.offset_lt_afterAll p (hgs g List.mem_cons_self) (rest.take (n - 1))
    obtain ⟨hlast, hrise⟩ := ih fun g hg => hgs g (List.mem_cons_of_mem _ (List.mem_of_mem_drop hg))
    rw [heq] at hlast hrise
    refine ⟨Nat.le_trans (Nat.le_of_lt hlt) hlast,
      hrise.cons (x := .token ⟨kind, _, p⟩) hlt hlast ?_⟩
    intro t ht
    cases ht
    exact tokenAt?_ne_eof htoken

end Lexical

end Formulary
