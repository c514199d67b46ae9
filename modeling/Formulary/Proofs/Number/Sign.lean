import Mathlib
import Formulary.Number.Literal

/-!
# The sign of a real number

A number of a binary format is negated by its sign bit alone, so a number that is read with a minus
sign is the negation of the one that is read without it, and negating twice gives the number back.
-/

namespace Formulary

section Bits

open Float.Model.UnpackedFloat

variable {spec : Float.Model.Format}

def flipped (b : BitVec spec.numBits) : BitVec spec.numBits :=
  packComponents spec (-Sign.ofBitVec (unpackSign b)) (unpackExponent b) (unpackMantissa b)

theorem unpack_flipped (b : BitVec spec.numBits) :
    unpack spec (flipped b) = (unpack spec b).neg := by
  simp only [unpack, flipped, unpackSign_packComponents, unpackExponent_packComponents,
    unpackMantissa_packComponents, Sign.ofBitVec_toBitVec]
  split
  · split <;> rfl
  · split
    · split <;> rfl
    · rfl

theorem unpack_pack_unpack (b : BitVec spec.numBits) (h : 2 ≤ spec.exponentBits) :
    unpack spec (pack spec (unpack spec b)) = unpack spec b := by
  rw [pack_unpack b h]
  split
  · rename_i hnan
    obtain ⟨hexponent, hmantissa⟩ := of_decide_eq_true hnan
    have hb : unpack spec b = .notANumber := by
      simp only [unpack]
      rw [if_pos hexponent, if_neg hmantissa]
    rw [hb, unpack_packedNaN]
  · rfl

theorem neg_neg_unpacked (u : Float.Model.UnpackedFloat) : u.neg.neg = u := by
  rcases u with ⟨⟨⟩⟩ | _ | ⟨⟨⟩⟩ | ⟨⟨⟩, m, e, h⟩ <;> rfl

/-- Where the sign bit is not set, the other sign sets it. -/
theorem flipped_ofNat {n : Nat}
    (h : n < 2 ^ (spec.mantissaBitsWithoutImplicit + spec.exponentBits)) :
    flipped (BitVec.ofNat spec.numBits n) =
      BitVec.ofNat spec.numBits
        (n + 2 ^ (spec.mantissaBitsWithoutImplicit + spec.exponentBits)) := by
  have hbits : spec.numBits = spec.mantissaBitsWithoutImplicit + spec.exponentBits + 1 := by
    simp only [Float.Model.Format.numBits]
    omega
  have hlt : n < 2 ^ spec.numBits := by
    rw [hbits, Nat.pow_succ]
    omega
  have hsign : unpackSign (BitVec.ofNat spec.numBits n) = 0#1 := by
    rw [unpackSign_def, ← BitVec.toNat_inj]
    simp [Nat.shiftRight_eq_div_pow, Nat.mod_eq_of_lt hlt, Nat.div_eq_of_lt h]
  have hwhole : ∀ s : Sign, (packComponents spec s (unpackExponent (BitVec.ofNat spec.numBits n))
      (unpackMantissa (BitVec.ofNat spec.numBits n))).toNat =
        s.toBitVec.toNat * 2 ^ (spec.mantissaBitsWithoutImplicit + spec.exponentBits) +
          ((unpackExponent (BitVec.ofNat spec.numBits n)).toNat * 2 ^
            spec.mantissaBitsWithoutImplicit +
            (unpackMantissa (BitVec.ofNat spec.numBits n)).toNat) := by
    intro s
    rw [packComponents, BitVec.toNat_append, ← Nat.shiftLeft_add_eq_or_of_lt (BitVec.isLt _),
      BitVec.toNat_append, ← Nat.shiftLeft_add_eq_or_of_lt (BitVec.isLt _), Nat.shiftLeft_eq,
      Nat.shiftLeft_eq]
    ring
  have hplain := hwhole .positive
  have hpositive : Sign.ofBitVec (0#1) = .positive := rfl
  have hsplit := packComponents_unpackSign_unpackExponent_unpackMantissa
    (BitVec.ofNat spec.numBits n)
  rw [hsign, hpositive] at hsplit
  rw [hsplit, BitVec.toNat_ofNat, Nat.mod_eq_of_lt hlt] at hplain
  rw [← BitVec.toNat_inj, flipped, hsign, hpositive, hwhole, BitVec.toNat_ofNat, Nat.mod_eq_of_lt]
  · have hzero : Sign.positive.toBitVec.toNat = 0 := rfl
    have hone : (-Sign.positive).toBitVec.toNat = 1 := rfl
    rw [hzero] at hplain
    rw [hone]
    omega
  · rw [hbits, Nat.pow_succ]
    omega

/-- A double is negated by its sign bit. -/
theorem neg_ofBits (b : UInt64) : -Float.ofBits b =
    Float.ofBits ⟨@flipped .binary64 b.toBitVec⟩ := by
  have hbits : unpack .binary64 (pack .binary64 (unpack .binary64 b.toBitVec)) =
      unpack .binary64 b.toBitVec :=
    unpack_pack_unpack _ (by decide)
  show Float.ofModel
    (Float.Model.pack (unpack .binary64 (pack .binary64 (unpack .binary64 b.toBitVec))).neg) =
    Float.ofModel (Float.Model.pack (unpack .binary64 (flipped b.toBitVec)))
  rw [hbits, unpack_flipped]

theorem neg_neg_double (x : Float) : - -x = x := by
  rw [← Float.ofBits_toBits x, neg_ofBits, neg_ofBits]
  show Float.ofModel (Float.Model.pack (unpack .binary64 (flipped (flipped x.toBits.toBitVec)))) =
    Float.ofModel (Float.Model.pack (unpack .binary64 x.toBits.toBitVec))
  rw [unpack_flipped, unpack_flipped, neg_neg_unpacked]

/-- A single is negated by its sign bit. -/
theorem neg_ofBits_single (b : UInt32) : -Float32.ofBits b =
    Float32.ofBits ⟨@flipped .binary32 b.toBitVec⟩ := by
  have hbits : unpack .binary32 (pack .binary32 (unpack .binary32 b.toBitVec)) =
      unpack .binary32 b.toBitVec :=
    unpack_pack_unpack _ (by decide)
  show Float32.ofModel
    (Float32.Model.pack (unpack .binary32 (pack .binary32 (unpack .binary32 b.toBitVec))).neg) =
    Float32.ofModel (Float32.Model.pack (unpack .binary32 (flipped b.toBitVec)))
  rw [hbits, unpack_flipped]

theorem neg_neg_single (x : Float32) : - -x = x := by
  rw [← Float32.ofBits_toBits x, neg_ofBits_single, neg_ofBits_single]
  show Float32.ofModel
    (Float32.Model.pack (unpack .binary32 (flipped (flipped x.toBits.toBitVec)))) =
    Float32.ofModel (Float32.Model.pack (unpack .binary32 x.toBits.toBitVec))
  rw [unpack_flipped, unpack_flipped, neg_neg_unpacked]

end Bits

namespace Number

/-- The bits of a number that is nearest to a fraction are at most those of infinity. -/
theorem nearestBits_le (f : Format) (num den : Nat) : nearestBits f num den ≤ f.infinityBits := by
  unfold nearestBits
  split
  · exact Nat.zero_le _
  · exact Nat.min_le_right _ _

theorem doubleOfBits_true {n : Nat} (h : n < 2 ^ 63) :
    doubleOfBits true n = -doubleOfBits false n := by
  rw [doubleOfBits, doubleOfBits, neg_ofBits]
  have := @flipped_ofNat .binary64 n h
  exact congrArg (fun b : BitVec 64 => Float.ofBits ⟨b⟩) this.symm

theorem singleOfBits_true {n : Nat} (h : n < 2 ^ 31) :
    singleOfBits true n = -singleOfBits false n := by
  rw [singleOfBits, singleOfBits, neg_ofBits_single]
  have := @flipped_ofNat .binary32 n h
  exact congrArg (fun b : BitVec 32 => Float32.ofBits ⟨b⟩) this.symm

/-- A numeral with a minus sign is the one without it, except for its sign. -/
theorem Numeral.read?_minus {cs : List Char} {n : Numeral}
    (h : Numeral.read? ('-' :: cs) = some n) :
    n.negative = true ∧ Numeral.read? cs = some { n with negative := false } := by
  have hsign : spanSign cs = (false, cs) := by
    -- Behind the sign there is a digit or a point, so no second sign.
    unfold spanSign
    split
    · cases h
    · cases h
    · rfl
  have hminus : spanSign ('-' :: cs) = (true, cs) := rfl
  have hbody : ∀ part rest : List Char,
      (if ((spanDigits cs).1.isEmpty && part.isEmpty) = true then none
        else (readExponent? rest).map fun e =>
          ⟨true, digitsValue ((spanDigits cs).1 ++ part), e - part.length⟩) = some n →
      n.negative = true ∧ (if ((spanDigits cs).1.isEmpty && part.isEmpty) = true then none
        else (readExponent? rest).map fun e =>
          ⟨false, digitsValue ((spanDigits cs).1 ++ part), e - part.length⟩) =
          some { n with negative := false } := by
    intro part rest h
    split at h
    · cases h
    · rename_i hempty
      obtain ⟨e, he, rfl⟩ := Option.map_eq_some_iff.1 h
      rw [if_neg hempty, he]
      exact ⟨rfl, rfl⟩
  unfold Numeral.read? at h ⊢
  rw [hminus] at h
  rw [hsign]
  dsimp only at h ⊢
  split at h
  · exact hbody _ _ h
  · exact hbody _ _ h

theorem Numeral.double?_negative {n : Numeral} {x : Float}
    (h : { n with negative := true }.double? = some x) :
    ∃ y, { n with negative := false }.double? = some y ∧ x = -y := by
  have hle := nearestBits_le .double n.fraction.1 n.fraction.2
  have hbits : { n with negative := true }.bits .double =
    { n with negative := false }.bits .double := rfl
  unfold Numeral.double? at h ⊢
  simp only [hbits] at h ⊢
  split at h
  · cases h
  · rename_i hfinite
    cases h
    rw [if_neg hfinite]
    refine ⟨_, rfl, doubleOfBits_true ?_⟩
    exact Nat.lt_of_le_of_lt hle (by decide)

theorem Numeral.single?_negative {n : Numeral} {x : Float32}
    (h : { n with negative := true }.single? = some x) :
    ∃ y, { n with negative := false }.single? = some y ∧ x = -y := by
  have hle := nearestBits_le .single n.fraction.1 n.fraction.2
  have hbits : { n with negative := true }.bits .single =
    { n with negative := false }.bits .single := rfl
  unfold Numeral.single? at h ⊢
  simp only [hbits] at h ⊢
  split at h
  · cases h
  · rename_i hfinite
    cases h
    rw [if_neg hfinite]
    refine ⟨_, rfl, singleOfBits_true ?_⟩
    exact Nat.lt_of_le_of_lt hle (by decide)

end Number

end Formulary
