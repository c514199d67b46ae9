import Formulary.Text.Case
import Formulary.Proofs.Text.Spelling

/-!
# Characters and the bytes that spell them

A text gives characters of three sorts: ASCII bytes that stand for themselves, the spellings of code
points beyond ASCII, and bytes that belong to no well-formed character. So an ASCII byte is never a
part of another character, and a text can be cut anywhere between characters without a change of
what is read on either side.

Of the ASCII characters only the capital letters fold, each to its small letter. Folding that asks
for this first reads the tables for other characters alone, and so it is the one to calculate with.
-/

namespace Formulary.Text

inductive Glyph.Spelled : Glyph → Prop
  | ascii {b : UInt8} (hb : b.toNat < 0x80) : Spelled ⟨b.toNat, [b]⟩
  | encoded {c : Nat} (hc : 0x80 ≤ c) : Spelled ⟨c, encode c⟩
  | stray {b : UInt8} (hb : 0x80 ≤ b.toNat) : Spelled ⟨replacement, [b]⟩

theorem toUInt8_eq {n : Nat} {b : UInt8} (h : n = b.toNat) : n.toUInt8 = b := by
  rw [h]
  exact UInt8.ofNat_toNat

section Decoded

variable {a b c d : UInt8}

theorem encode_two (ha : 0xC2 ≤ a.toNat) (ha' : a.toNat ≤ 0xDF) (hb : 0x80 ≤ b.toNat)
    (hb' : b.toNat ≤ 0xBF) :
    0x80 ≤ a.toNat % 32 * 64 + tailBits b ∧ encode (a.toNat % 32 * 64 + tailBits b) = [a, b] := by
  have hbits : tailBits b = b.toNat - 0x80 := by
    unfold tailBits
    omega
  rw [hbits]
  refine ⟨by omega, ?_⟩
  rw [encode, if_neg (by omega), if_pos (by omega), toUInt8_eq (b := a) (by omega),
    toUInt8_eq (b := b) (by omega)]

theorem encode_three (ha : 0xE0 ≤ a.toNat) (ha' : a.toNat ≤ 0xEF) (hb : 0x80 ≤ b.toNat)
    (hb' : b.toNat ≤ 0xBF)
    (hc : 0x80 ≤ c.toNat) (hc' : c.toNat ≤ 0xBF) (hlow : a.toNat = 0xE0 → 0xA0 ≤ b.toNat)
    (hhigh : a.toNat = 0xED → b.toNat ≤ 0x9F) :
    0x80 ≤ a.toNat % 16 * 4096 + tailBits b * 64 + tailBits c ∧
      encode (a.toNat % 16 * 4096 + tailBits b * 64 + tailBits c) = [a, b, c] := by
  have hbits : tailBits b = b.toNat - 0x80 ∧ tailBits c = c.toNat - 0x80 := by
    unfold tailBits
    omega
  rw [hbits.1, hbits.2]
  refine ⟨by omega, ?_⟩
  have hscalar :
      isScalar (a.toNat % 16 * 4096 + (b.toNat - 0x80) * 64 + (c.toNat - 0x80)) = true := by
    simp only [isScalar, Bool.or_eq_true, Bool.and_eq_true, decide_eq_true_eq]
    omega
  rw [encode, if_neg (by omega), if_neg (by omega), hscalar, if_neg (by decide), if_pos (by omega),
    toUInt8_eq (b := a) (by omega), toUInt8_eq (b := b) (by omega), toUInt8_eq (b := c) (by omega)]

theorem encode_four (ha : 0xF0 ≤ a.toNat) (ha' : a.toNat ≤ 0xF4) (hb : 0x80 ≤ b.toNat)
    (hb' : b.toNat ≤ 0xBF)
    (hc : 0x80 ≤ c.toNat) (hc' : c.toNat ≤ 0xBF) (hd : 0x80 ≤ d.toNat) (hd' : d.toNat ≤ 0xBF)
    (hlow : a.toNat = 0xF0 → 0x90 ≤ b.toNat) (hhigh : a.toNat = 0xF4 → b.toNat ≤ 0x8F) :
    0x80 ≤ a.toNat % 8 * 262144 + tailBits b * 4096 + tailBits c * 64 + tailBits d ∧
      encode (a.toNat % 8 * 262144 + tailBits b * 4096 + tailBits c * 64 + tailBits d) =
        [a, b, c, d] := by
  have hbits : tailBits b = b.toNat - 0x80 ∧ tailBits c = c.toNat - 0x80 ∧
      tailBits d = d.toNat - 0x80 := by
    unfold tailBits
    omega
  rw [hbits.1, hbits.2.1, hbits.2.2]
  refine ⟨by omega, ?_⟩
  have hscalar : isScalar (a.toNat % 8 * 262144 + (b.toNat - 0x80) * 4096 +
      (c.toNat - 0x80) * 64 + (d.toNat - 0x80)) = true := by
    simp only [isScalar, Bool.or_eq_true, Bool.and_eq_true, decide_eq_true_eq]
    omega
  rw [encode, if_neg (by omega), if_neg (by omega), hscalar, if_neg (by decide), if_neg (by omega),
    toUInt8_eq (b := a) (by omega), toUInt8_eq (b := b) (by omega), toUInt8_eq (b := c) (by omega),
    toUInt8_eq (b := d) (by omega)]

end Decoded

/-- The first character of a text is one that texts have. -/
theorem spelled_decodeFirst (b : UInt8) (t : Text) :
    (Glyph.mk (decodeFirst (b :: t)).1 ((b :: t).take (decodeFirst (b :: t)).2)).Spelled := by
  by_cases hb : b.toNat < 0x80
  · have hdecode : decodeFirst (b :: t) = (b.toNat, 1) := if_pos (UInt8.lt_iff_toNat_lt.2 hb)
    rw [hdecode]
    exact .ascii hb
  have hstray : (Glyph.mk replacement ((b :: t).take 1)).Spelled := .stray (Nat.le_of_not_lt hb)
  generalize hdecode : decodeFirst (b :: t) = first
  simp only [decodeFirst, UInt8.lt_iff_toNat_lt, UInt8.le_iff_toNat_le, isTail, Bool.and_eq_true,
    Bool.or_eq_true, decide_eq_true_eq, bne_iff_ne, ne_eq, ← UInt8.toNat_inj] at hdecode
  rw [if_neg (by exact hb)] at hdecode
  -- One case for each number of bytes; wherever one of them does not fit, the first is a stray
  -- byte.
  split at hdecode
  · rename_i hfirst
    split at hdecode
    · split at hdecode
      · rename_i c _ h
        obtain ⟨hle, henc⟩ := encode_two (a := b) (b := c) hfirst.1 hfirst.2 h.1 h.2
        have hspelled := Glyph.Spelled.encoded hle
        rw [henc] at hspelled
        exact hdecode ▸ hspelled
      · exact hdecode ▸ hstray
    · exact hdecode ▸ hstray
  · split at hdecode
    · rename_i hfirst
      split at hdecode
      · split at hdecode
        · rename_i c d _ h
          obtain ⟨⟨⟨hc, hd⟩, hlow⟩, hhigh⟩ := h
          obtain ⟨hle, henc⟩ := encode_three (a := b) (b := c) (c := d) hfirst.1 hfirst.2
            hc.1 hc.2 hd.1 hd.2
            (fun h => hlow.resolve_left (absurd h)) (fun h => hhigh.resolve_left (absurd h))
          have hspelled := Glyph.Spelled.encoded hle
          rw [henc] at hspelled
          exact hdecode ▸ hspelled
        · exact hdecode ▸ hstray
      · exact hdecode ▸ hstray
    · split at hdecode
      · rename_i hfirst
        split at hdecode
        · split at hdecode
          · rename_i c d e _ h
            obtain ⟨⟨⟨⟨hc, hd⟩, he⟩, hlow⟩, hhigh⟩ := h
            obtain ⟨hle, henc⟩ := encode_four (a := b) (b := c) (c := d) (d := e) hfirst.1 hfirst.2
              hc.1 hc.2 hd.1 hd.2
              he.1 he.2 (fun h => hlow.resolve_left (absurd h)) (fun h =>
                hhigh.resolve_left (absurd h))
            have hspelled := Glyph.Spelled.encoded hle
            rw [henc] at hspelled
            exact hdecode ▸ hspelled
          · exact hdecode ▸ hstray
        · exact hdecode ▸ hstray
      · exact hdecode ▸ hstray

/-- The characters of a text are of the three sorts. -/
theorem spelled_of_mem {t : Text} {g : Glyph} (h : g ∈ t.glyphs) : g.Spelled := by
  induction hn : t.length using Nat.strongRecOn generalizing t with
  | _ n ih =>
    cases t with
    | nil => cases h
    | cons b t =>
      rw [glyphs_eq_cons (List.cons_ne_nil b t)] at h
      rcases List.mem_cons.1 h with rfl | h
      · exact spelled_decodeFirst b t
      · have hpos := decodeFirst_width_pos b t
        refine ih _ ?_ h rfl
        rw [← hn, List.length_drop, List.length_cons]
        omega

/-- Beyond ASCII no byte of a code point is one of ASCII. -/
theorem le_of_mem_encode {c : Nat} (hc : 0x80 ≤ c) {b : UInt8} (h : b ∈ encode c) :
    0x80 ≤ b.toNat := by
  unfold encode at h
  rw [if_neg (by omega)] at h
  split at h
  · simp only [List.mem_cons, List.not_mem_nil, or_false] at h
    rcases h with rfl | rfl
    · rw [toNat_toUInt8 (by omega)]
      omega
    · rw [toNat_toUInt8 (by omega)]
      omega
  · split at h
    · revert b
      decide +kernel
    · rename_i hscalar
      rw [Bool.not_eq_true, Bool.not_eq_false', isScalar] at hscalar
      simp only [Bool.or_eq_true, Bool.and_eq_true, decide_eq_true_eq] at hscalar
      split at h
      all_goals
        simp only [List.mem_cons, List.not_mem_nil, or_false] at h
        rcases h with rfl | h
        · rw [toNat_toUInt8 (by omega)]
          omega
      · rcases h with rfl | rfl
        all_goals
          rw [toNat_toUInt8 (by omega)]
          omega
      · rcases h with rfl | rfl | rfl
        all_goals
          rw [toNat_toUInt8 (by omega)]
          omega

namespace Glyph.Spelled

variable {g : Glyph}

/-- A character of ASCII is spelled by itself. -/
theorem bytes_of_lt (h : g.Spelled) (hlt : g.code < 0x80) : g.bytes = [g.code.toUInt8] := by
  cases h with
  | ascii hb => rw [toUInt8_eq rfl]
  | encoded hc => exact absurd hlt (Nat.not_lt.2 hc)
  | stray hb => exact absurd hlt (by decide : ¬replacement < 0x80)

/-- No other character has a byte of ASCII. -/
theorem le_of_mem (h : g.Spelled) (hle : 0x80 ≤ g.code) {b : UInt8} (hb : b ∈ g.bytes) :
    0x80 ≤ b.toNat := by
  cases h with
  | ascii hlt => exact absurd hlt (Nat.not_lt.2 hle)
  | encoded hc => exact le_of_mem_encode hc hb
  | stray hstray =>
    rw [List.mem_singleton] at hb
    rw [hb]
    exact hstray

end Glyph.Spelled

section Cut

variable {t : Text} {a b c : List Glyph}

/-- What stands before a cut between characters is read as it was. -/
theorem glyphs_left (h : t.glyphs = a ++ b) : glyphs (a.flatMap (·.bytes)) = a := by
  have htext : t = a.flatMap (·.bytes) ++ b.flatMap (·.bytes) := by
    rw [← flatMap_bytes_glyphs t, h, List.flatMap_append]
  rw [htext] at h
  have hclosed := (glyphs_cut h rfl).2 0x29 [] rfl
  rw [glyphs_append] at hclosed
  exact List.append_cancel_right hclosed

/-- What stands between two cuts is read as it was. -/
theorem glyphs_between (h : t.glyphs = a ++ (b ++ c)) : glyphs (b.flatMap (·.bytes)) = b := by
  have htext : t = a.flatMap (·.bytes) ++ (b.flatMap (·.bytes) ++ c.flatMap (·.bytes)) := by
    rw [← flatMap_bytes_glyphs t, h, List.flatMap_append, List.flatMap_append]
  rw [htext] at h
  exact glyphs_left (glyphs_cut h rfl).1

end Cut

section Folding

/-- The case folding of one code point, with ASCII apart. -/
def directFold (c : Nat) : Nat :=
  if c < 0x80 then (if 0x41 ≤ c ∧ c ≤ 0x5A then c + 0x20 else c) else foldCode c

/-- The case folding of one code point in full, with ASCII apart. -/
def directFoldFull (c : Nat) : List Nat := if c < 0x80 then [directFold c] else foldFull c

/-- The table has one row for ASCII, and it is the first. -/
theorem foldRows_eq : ∃ rows, foldRows = (0x41, 0x5A, 1, 0x61) :: rows ∧
    rows.all (fun r => 0x80 ≤ r.1) = true :=
  ⟨foldRows.tail, rfl, by decide +kernel⟩

theorem foldSpecials_high : foldSpecials.all (fun r => 0x80 ≤ r.1) = true := by
  decide +kernel

theorem foldCode_ascii {c : Nat} (h : c < 0x80) : foldCode c = if 0x41 ≤ c ∧ c ≤ 0x5A then
    c + 0x20 else c := by
  obtain ⟨rows, hrows, hhigh⟩ := foldRows_eq
  have hnone : rows.find? (fun r => r.1 ≤ c && c ≤ r.2.1 && (c - r.1) % r.2.2.1 == 0) = none := by
    refine List.find?_eq_none.2 fun r hr => ?_
    have := of_decide_eq_true (List.all_eq_true.1 hhigh r hr)
    have hlow : ¬ r.1 ≤ c := by omega
    simp [hlow]
  rw [foldCode, mapRow, hrows]
  by_cases hcapital : 0x41 ≤ c ∧ c ≤ 0x5A
  · have hfind : ((0x41, 0x5A, 1, 0x61) :: rows).find? (fun r =>
      r.1 ≤ c && c ≤ r.2.1 && (c - r.1) % r.2.2.1 == 0) =
        some (0x41, 0x5A, 1, 0x61) := List.find?_cons_of_pos (by simp [hcapital, Nat.mod_one])
    rw [hfind, if_pos hcapital]
    show 0x61 + (c - 0x41) = c + 0x20
    omega
  · rw [List.find?_cons_of_neg (by simp only [Nat.mod_one]; simpa using hcapital), hnone,
      if_neg hcapital]

theorem foldCode_eq : foldCode = directFold := by
  funext c
  unfold directFold
  split
  · exact foldCode_ascii ‹_›
  · rfl

theorem foldFull_eq : foldFull = directFoldFull := by
  funext c
  unfold directFoldFull
  split
  · have hnone : foldSpecials.find? (fun r => r.1 == c) = none := by
      refine List.find?_eq_none.2 fun r hr => ?_
      have := of_decide_eq_true (List.all_eq_true.1 foldSpecials_high r hr)
      simp only [beq_iff_eq]
      omega
    rw [foldFull, mapFull, hnone, foldCode_eq]
  · rfl

/-- The case folding of a text, with ASCII apart. -/
theorem fold_eq (t : Text) : fold t = mapGlyphs directFoldFull t := by rw [fold, foldFull_eq]

end Folding

end Formulary.Text
