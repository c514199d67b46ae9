import Formulary.Text.Utf8

/-!
# How characters are spelled

A code point is spelled as one character. A text can be cut between two characters: what is behind
the cut is read as it was, and so is what is before it, if a byte that continues no character
follows.
-/

namespace Formulary.Text

theorem toNat_toUInt8 {n : Nat} (h : n < 256) : n.toUInt8.toNat = n := by
  simp; omega

section

variable {a b c d : UInt8}

theorem decodeFirst_two (ha : 0xC2 ≤ a.toNat) (ha' : a.toNat ≤ 0xDF) (hb : 0x80 ≤ b.toNat)
    (hb' : b.toNat ≤ 0xBF)
    (t : Text) : decodeFirst (a :: b :: t) = (a.toNat % 32 * 64 + tailBits b, 2) := by
  simp only [decodeFirst, UInt8.lt_iff_toNat_lt, UInt8.le_iff_toNat_le, isTail, Bool.and_eq_true,
    decide_eq_true_eq]
  rw [if_neg (by simp; omega), if_pos (by simp; omega), if_pos (by simp; omega)]

theorem decodeFirst_three (ha : 0xE0 ≤ a.toNat) (ha' : a.toNat ≤ 0xEF) (hb : 0x80 ≤ b.toNat)
    (hb' : b.toNat ≤ 0xBF)
    (hc : 0x80 ≤ c.toNat) (hc' : c.toNat ≤ 0xBF) (hlow : a.toNat = 0xE0 → 0xA0 ≤ b.toNat)
    (hhigh : a.toNat = 0xED → b.toNat ≤ 0x9F) (t : Text) :
    decodeFirst (a :: b :: c :: t) = (a.toNat % 16 * 4096 + tailBits b * 64 + tailBits c, 3) := by
  simp only [decodeFirst, UInt8.lt_iff_toNat_lt, UInt8.le_iff_toNat_le, isTail, Bool.and_eq_true,
    decide_eq_true_eq, Bool.or_eq_true, bne_iff_ne, ne_eq, ← UInt8.toNat_inj]
  rw [if_neg (by simp; omega), if_neg (by simp; omega), if_pos (by simp; omega),
    if_pos (by simp; omega)]

theorem decodeFirst_four (ha : 0xF0 ≤ a.toNat) (ha' : a.toNat ≤ 0xF4) (hb : 0x80 ≤ b.toNat)
    (hb' : b.toNat ≤ 0xBF)
    (hc : 0x80 ≤ c.toNat) (hc' : c.toNat ≤ 0xBF) (hd : 0x80 ≤ d.toNat) (hd' : d.toNat ≤ 0xBF)
    (hlow : a.toNat = 0xF0 → 0x90 ≤ b.toNat) (hhigh : a.toNat = 0xF4 → b.toNat ≤ 0x8F) (t : Text) :
    decodeFirst (a :: b :: c :: d :: t) =
      (a.toNat % 8 * 262144 + tailBits b * 4096 + tailBits c * 64 + tailBits d, 4) := by
  simp only [decodeFirst, UInt8.lt_iff_toNat_lt, UInt8.le_iff_toNat_le, isTail, Bool.and_eq_true,
    decide_eq_true_eq, Bool.or_eq_true, bne_iff_ne, ne_eq, ← UInt8.toNat_inj]
  rw [if_neg (by simp; omega), if_neg (by simp; omega), if_neg (by simp; omega),
    if_pos (by simp; omega), if_pos (by simp; omega)]

end

/-- What a text spells is read back from its bytes, whatever stands behind them. -/
theorem decodeFirst_encode {c : Nat} (hc : isScalar c = true) (t : Text) :
    decodeFirst (encode c ++ t) = (c, (encode c).length) := by
  have hrange : c < 0xD800 ∨ 0xE000 ≤ c ∧ c ≤ 0x10FFFF := by simpa [isScalar] using hc
  unfold encode
  split
  · have hbyte := toNat_toUInt8 (n := c) (by omega)
    simp only [List.singleton_append, decodeFirst, UInt8.lt_iff_toNat_lt, hbyte]
    rw [if_pos (by assumption)]
    rfl
  · split
    · have hlead := toNat_toUInt8 (n := 0xC0 + c / 64) (by omega)
      have htail := toNat_toUInt8 (n := 0x80 + c % 64) (by omega)
      refine (decodeFirst_two ?_ ?_ ?_ ?_ t).trans (Prod.ext ?_ rfl)
      all_goals simp only [tailBits, hlead, htail]
      all_goals omega
    · rw [hc, if_neg (by decide)]
      have hlast := toNat_toUInt8 (n := 0x80 + c % 64) (by omega)
      have hsecond := toNat_toUInt8 (n := 0x80 + c / 64 % 64) (by omega)
      split
      · have hlead := toNat_toUInt8 (n := 0xE0 + c / 4096) (by omega)
        refine (decodeFirst_three ?_ ?_ ?_ ?_ ?_ ?_ ?_ ?_ t).trans (Prod.ext ?_ rfl)
        all_goals simp only [tailBits, hlead, hsecond, hlast]
        all_goals omega
      · have hlead := toNat_toUInt8 (n := 0xF0 + c / 262144) (by omega)
        have hthird := toNat_toUInt8 (n := 0x80 + c / 4096 % 64) (by omega)
        refine (decodeFirst_four ?_ ?_ ?_ ?_ ?_ ?_ ?_ ?_ ?_ ?_ t).trans (Prod.ext ?_ rfl)
        all_goals simp only [tailBits, hlead, hthird, hsecond, hlast]
        all_goals omega

/-- The closing parenthesis as a character. -/
def closing : Glyph := ⟨0x29, [0x29]⟩

def byteGlyph (b : UInt8) : Glyph := ⟨b.toNat, [b]⟩

/-- A byte that continues no character does not change what stands before it. -/
theorem decodeFirst_append {p : UInt8} (hp : isTail p = false) {t : Text} (ht : t ≠ []) (x : Text) :
    decodeFirst (t ++ p :: x) = decodeFirst t := by
  obtain ⟨b, t, rfl⟩ := List.exists_cons_of_ne_nil ht
  unfold decodeFirst
  simp only [List.cons_append]
  rcases t with _ | ⟨c, _ | ⟨d, _ | ⟨e, t⟩⟩⟩ <;> rcases x with _ | ⟨y, _ | ⟨z, x⟩⟩ <;> simp [hp]

/-- A character that comes out shorter than its first byte announces is the replacement. -/
theorem eq_replacement_of_le {p : Prop} [Decidable p] {c n k : Nat} (hk : k < n)
    (h : (if p then (c, n) else (replacement, 1)).2 ≤ k) :
    (if p then (c, n) else (replacement, 1)) = (replacement, 1) := by
  split at h
  · exact absurd h (Nat.not_le.2 hk)
  · rename_i hp
    rw [if_neg hp]

/-- What stands behind a character does not change it. -/
theorem decodeFirst_of_append {t v : Text} (ht : t ≠ []) (h : (decodeFirst (t ++ v)).2 ≤ t.length) :
    decodeFirst (t ++ v) = decodeFirst t := by
  obtain ⟨b, t, rfl⟩ := List.exists_cons_of_ne_nil ht
  simp only [List.cons_append, decodeFirst, List.length_cons] at h
  simp only [List.cons_append, decodeFirst]
  split at h
  · rename_i hb
    rw [if_pos hb, if_pos hb]
  rename_i hb
  rw [if_neg hb, if_neg hb]
  split at h
  · rename_i htwo
    rw [if_pos htwo, if_pos htwo]
    rcases t with _ | ⟨c, t⟩
    · cases v with
      | nil => rfl
      | cons c v => exact eq_replacement_of_le (by simp) h
    · rfl
  rename_i htwo
  rw [if_neg htwo, if_neg htwo]
  split at h
  · rename_i hthree
    rw [if_pos hthree, if_pos hthree]
    rcases t with _ | ⟨c, _ | ⟨d, t⟩⟩
    · rcases v with _ | ⟨c, _ | ⟨d, v⟩⟩
      · rfl
      · rfl
      · exact eq_replacement_of_le (by simp) h
    · cases v with
      | nil => rfl
      | cons d v => exact eq_replacement_of_le (by simp) h
    · rfl
  rename_i hthree
  rw [if_neg hthree, if_neg hthree]
  split at h
  · rename_i hfour
    rw [if_pos hfour, if_pos hfour]
    rcases t with _ | ⟨c, _ | ⟨d, _ | ⟨e, t⟩⟩⟩
    · rcases v with _ | ⟨c, _ | ⟨d, _ | ⟨e, v⟩⟩⟩
      · rfl
      · rfl
      · rfl
      · exact eq_replacement_of_le (by simp) h
    · rcases v with _ | ⟨d, _ | ⟨e, v⟩⟩
      · rfl
      · rfl
      · exact eq_replacement_of_le (by simp) h
    · cases v with
      | nil => rfl
      | cons e v => exact eq_replacement_of_le (by simp) h
    · rfl
  · rename_i hfour
    rw [if_neg hfour, if_neg hfour]

theorem glyphsFrom_eq (skip : Nat) (t : Text) : glyphsFrom skip t = glyphs (t.drop skip) := by
  induction t generalizing skip with
  | nil => cases skip <;> rfl
  | cons b t ih =>
    cases skip with
    | zero => rfl
    | succ n => exact ih n

/-- The first character of a text, and those behind it. -/
theorem glyphs_eq_cons {t : Text} (ht : t ≠ []) :
    glyphs t = ⟨(decodeFirst t).1, t.take (decodeFirst t).2⟩ :: glyphs
      (t.drop (decodeFirst t).2) := by
  obtain ⟨b, t, rfl⟩ := List.exists_cons_of_ne_nil ht
  obtain ⟨k, hk⟩ : ∃ k, (decodeFirst (b :: t)).2 = k + 1 :=
    ⟨_, (Nat.succ_pred_eq_of_pos (decodeFirst_width_pos b t)).symm⟩
  rw [glyphs, glyphsFrom]
  simp only [glyphsFrom_eq, hk]
  rfl

theorem encode_ne_nil (c : Nat) : encode c ≠ [] := by
  unfold encode
  repeat' split
  all_goals exact List.cons_ne_nil _ _

/-- What a text spells is read as one character. -/
theorem glyphs_encode {c : Nat} (hc : isScalar c = true) (t : Text) :
    glyphs (encode c ++ t) = ⟨c, encode c⟩ :: glyphs t := by
  rw [glyphs_eq_cons (List.append_ne_nil_of_left_ne_nil (encode_ne_nil c) t),
    decodeFirst_encode hc, List.take_left, List.drop_left]

theorem encode_of_lt {c : Nat} (hc : c < 0x80) : encode c = [c.toUInt8] := if_pos hc

/-- A character of ASCII is read as itself, whatever stands behind it. -/
theorem glyphs_cons_of_lt {c : Nat} (hc : c < 0x80) (t : Text) :
    glyphs (c.toUInt8 :: t) = ⟨c, [c.toUInt8]⟩ :: glyphs t := by
  have hscalar : isScalar c = true := by simp [isScalar]; omega
  have hglyphs := glyphs_encode hscalar t
  rwa [encode_of_lt hc] at hglyphs

theorem glyphs_ascii {w : Text} (hw : ∀ b ∈ w, b.toNat < 0x80) (t : Text) :
    glyphs (w ++ t) = w.map byteGlyph ++ glyphs t := by
  induction w with
  | nil => rfl
  | cons b w ih =>
    obtain ⟨hb, hw⟩ := List.forall_mem_cons.1 hw
    have hglyphs := glyphs_cons_of_lt hb (w ++ t)
    rw [Nat.toUInt8_eq, UInt8.ofNat_toNat, ih hw] at hglyphs
    exact hglyphs

theorem encode_of_not_scalar {c : Nat} (hc : isScalar c = false) :
    encode c = encode replacement := by
  have hrange : ¬ (c < 0xD800 ∨ 0xE000 ≤ c ∧ c ≤ 0x10FFFF) := by simpa [isScalar] using hc
  rw [encode, if_neg (by omega), if_neg (by omega), hc]
  rfl

/-- A code point is spelled as one character, below the end of ASCII as itself and beyond it as one
beyond it. -/
theorem codes_encode (c : Nat) :
    ∃ d, (encode c).codes = [d] ∧ (c < 0x80 → d = c) ∧ (0x80 ≤ c → 0x80 ≤ d) := by
  have hone : ∀ {d}, isScalar d = true → (encode d).codes = [d] := by
    intro d hd
    have hglyphs := glyphs_encode hd []
    rw [List.append_nil] at hglyphs
    rw [codes, hglyphs]
    rfl
  cases hc : isScalar c with
  | true => exact ⟨c, hone hc, fun _ => rfl, id⟩
  | false =>
    refine ⟨replacement, by rw [encode_of_not_scalar hc,
      hone rfl], fun hlt => ?_, fun _ => by decide⟩
    simp [isScalar] at hc
    omega

/-- Where a text is cut between two characters, what is behind the cut is read as it was, and so is
what is before it, if a byte that continues no character follows. -/
theorem glyphs_cut {u v : Text} {a b : List Glyph} (h : glyphs (u ++ v) = a ++ b)
    (hu : a.flatMap (·.bytes) = u) :
    glyphs v = b ∧ ∀ (p : UInt8) (x : Text), isTail p = false → glyphs (u ++ p :: x) = a ++
      glyphs (p :: x) := by
  induction a generalizing u with
  | nil =>
    subst hu
    exact ⟨h, fun _ _ _ => rfl⟩
  | cons g a ih =>
    have htext : u ++ v ≠ [] := fun hnil => by
      rw [hnil] at h
      cases h
    rw [glyphs_eq_cons htext, List.cons_append] at h
    obtain ⟨rfl, htail⟩ := List.cons.inj h
    have hle := decodeFirst_width_le (u ++ v)
    have hpos : 0 < (decodeFirst (u ++ v)).2 := by
      obtain ⟨c, t, ht⟩ := List.exists_cons_of_ne_nil htext
      rw [ht]
      exact decodeFirst_width_pos c t
    have hcut : (decodeFirst (u ++ v)).2 ≤ u.length := by
      have := congrArg List.length hu
      rw [List.flatMap_cons, List.length_append, List.length_take] at this
      omega
    have hne : u ≠ [] := List.length_pos_iff.1 (by omega)
    have hdecode := decodeFirst_of_append hne hcut
    rw [hdecode] at htail hu hcut
    rw [List.flatMap_cons, List.take_append_of_le_length hcut] at hu
    rw [List.drop_append_of_le_length hcut] at htail
    have hrest : a.flatMap (·.bytes) = u.drop (decodeFirst u).2 :=
      List.append_cancel_left (hu.trans (List.take_append_drop _ u).symm)
    obtain ⟨hv, hx⟩ := ih htail hrest
    refine ⟨hv, fun p x hp => ?_⟩
    rw [glyphs_eq_cons (by simp), decodeFirst_append hp hne, hdecode,
      List.take_append_of_le_length hcut, List.drop_append_of_le_length hcut, hx p x hp,
      List.take_append_of_le_length hcut]
    rfl

/-- The characters of a text and the parenthesis. -/
theorem glyphs_append (t : Text) : (t ++ [0x29]).glyphs = t.glyphs ++ [closing] := by
  have hwhole : glyphs (t ++ []) = t.glyphs ++ [] := by rw [List.append_nil, List.append_nil]
  exact (glyphs_cut hwhole (flatMap_bytes_glyphs t)).2 0x29 [] rfl

/-- A character is written as the library of strings writes it. -/
theorem encode_toNat (c : Char) : encode c.toNat = String.utf8EncodeChar c := by
  have hvalid : c.toNat < 0xD800 ∨ 0xDFFF < c.toNat ∧ c.toNat < 0x110000 := c.valid
  have hscalar : isScalar c.toNat = true := by
    simp only [isScalar, Bool.or_eq_true, Bool.and_eq_true, decide_eq_true_eq]
    omega
  unfold String.utf8EncodeChar encode
  have hval : c.val.toNat = c.toNat := rfl
  simp only [hscalar, Bool.not_true, Bool.false_eq_true, if_false, hval, Nat.toUInt8]
  generalize c.toNat = n at *
  by_cases hone : n < 0x80
  · rw [if_pos hone, if_pos (show n ≤ 0x7F by omega)]
  rw [if_neg hone, if_neg (show ¬n ≤ 0x7F by omega)]
  by_cases htwo : n < 0x800
  · rw [if_pos htwo, if_pos (show n ≤ 0x7FF by omega)]
    rw [Nat.mod_eq_of_lt (show n / 64 < 32 by omega), Nat.add_comm 0xC0, Nat.add_comm 0x80]
  rw [if_neg htwo, if_neg (show ¬n ≤ 0x7FF by omega)]
  by_cases hthree : n < 0x10000
  · rw [if_pos hthree, if_pos (show n ≤ 0xFFFF by omega)]
    rw [Nat.mod_eq_of_lt (show n / 4096 < 16 by omega), Nat.add_comm 0xE0,
      Nat.add_comm 0x80 (n / 64 % 64), Nat.add_comm 0x80 (n % 64)]
  rw [if_neg hthree, if_neg (show ¬n ≤ 0xFFFF by omega)]
  rw [Nat.mod_eq_of_lt (show n / 262144 < 8 by omega), Nat.add_comm 0xF0,
    Nat.add_comm 0x80 (n / 4096 % 64), Nat.add_comm 0x80 (n / 64 % 64), Nat.add_comm 0x80 (n % 64)]

/-- The bytes of a string are those of its characters. -/
theorem ofString_eq (s : String) : ofString s = s.toList.flatMap fun c => encode c.toNat := by
  have hbytes : s.toByteArray = (s.toList.flatMap String.utf8EncodeChar).toByteArray :=
    String.utf8Encode_toList.symm
  rw [ofString, String.toUTF8, hbytes, List.data_toByteArray, funext encode_toNat]

end Formulary.Text
