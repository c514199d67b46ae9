import Formulary.Library.Strings
import Formulary.Proofs.Library.Calls
import Formulary.Proofs.Text.Characters
import Mathlib.Order.Bounds.Basic
import Mathlib.Data.List.Basic
import Mathlib.Data.Set.Basic

/-!
# Searching and slicing by positions

A text of well-formed characters is searched byte by byte, and yet only whole characters are found:
the first byte of a character never continues another one, so that an occurrence starts between two
characters (`exists_boundary`). Offsets of bytes and positions of characters are therefore two names
of the same places, in the same order (`offset_lt`, `find?_ofCodes`, `findLast?_ofCodes`).

Positions and lengths count characters. A search gives the first or the last position at which the
text sought can be cut out (`indexOfFrom_answers`, `lastIndexOf_answers`), a cut succeeds exactly
within the text, and the two parts of a text at a position are the text again. For texts of less
than 2³¹ characters all this is what the library answers (`positions_agree`).
-/

namespace Formulary.Text

section Scalars

/-- Code points that texts can spell. -/
def Scalars (cs : List Nat) : Prop := ∀ c ∈ cs, isScalar c = true

theorem isScalar_iff {c : Nat} : isScalar c = true ↔ c < 0xD800 ∨ 0xE000 ≤ c ∧ c ≤ 0x10FFFF := by
  simp [isScalar]

/-- What is read from bytes can be spelled. -/
theorem isScalar_decodeFirst (t : Text) : isScalar (decodeFirst t).1 = true := by
  unfold decodeFirst
  simp only [UInt8.lt_iff_toNat_lt, UInt8.le_iff_toNat_le, isTail, Bool.and_eq_true,
    Bool.or_eq_true, decide_eq_true_eq, bne_iff_ne, ne_eq, ← UInt8.toNat_inj]
  repeat' split
  all_goals try exact isScalar_iff.2 (.inr (by decide))
  all_goals
    rw [isScalar_iff]
    simp only [tailBits, UInt8.reduceToNat] at *
    omega

theorem scalars_codes (t : Text) : Scalars t.codes := by
  induction hn : t.length using Nat.strongRecOn generalizing t with
  | _ n ih =>
    cases t with
    | nil => exact fun c hc => nomatch hc
    | cons b t =>
      rw [codes, glyphs_eq_cons (List.cons_ne_nil b t), List.map_cons]
      refine List.forall_mem_cons.2 ⟨isScalar_decodeFirst (b :: t), ih _ ?_ _ rfl⟩
      have hpos := decodeFirst_width_pos b t
      rw [← hn, List.length_drop, List.length_cons]
      omega

theorem Scalars.take {cs : List Nat} (h : Scalars cs) (n : Nat) : Scalars (cs.take n) :=
  fun c hc => h c (List.mem_of_mem_take hc)

theorem Scalars.drop {cs : List Nat} (h : Scalars cs) (n : Nat) : Scalars (cs.drop n) :=
  fun c hc => h c (List.mem_of_mem_drop hc)

/-- A text of well-formed characters is spelled by its code points. -/
theorem ofCodes_codes {t : Text} (h : t.isUtf8 = true) : ofCodes t.codes = t := by
  have hbytes : ∀ g ∈ t.glyphs, encode g.code = g.bytes := by
    intro g hg
    have hstray : g.isStray = false := by
      have hall := List.all_eq_true.1 h g hg
      simpa using hall
    cases spelled_of_mem hg with
    | ascii hb => rw [encode_of_lt hb, toUInt8_eq rfl]
    | encoded hc => rfl
    | stray hb => cases hstray
  rw [ofCodes, codes, List.flatMap_map]
  exact (List.flatMap_congr hbytes).trans (flatMap_bytes_glyphs t)

theorem codes_ofCodes_append {cs : List Nat} (h : Scalars cs) (t : Text) :
    codes (ofCodes cs ++ t) = cs ++ t.codes := by
  induction cs with
  | nil => rfl
  | cons c cs ih =>
    obtain ⟨hc, hcs⟩ := List.forall_mem_cons.1 h
    have htext : ofCodes (c :: cs) ++ t = encode c ++ (ofCodes cs ++ t) := by
      rw [ofCodes, List.flatMap_cons, List.append_assoc]
      rfl
    rw [htext, codes, glyphs_encode hc, List.map_cons, ← codes, ih hcs, List.cons_append]

theorem codes_ofCodes {cs : List Nat} (h : Scalars cs) : (ofCodes cs).codes = cs := by
  have happend := codes_ofCodes_append h []
  rwa [List.append_nil, show codes [] = [] from rfl, List.append_nil] at happend

theorem characterCount_eq (t : Text) : t.characterCount = t.codes.length := by
  rw [characterCount, codes, List.length_map]

theorem characterCount_ofCodes {cs : List Nat} (h : Scalars cs) :
    (ofCodes cs).characterCount = cs.length := by
  rw [characterCount_eq, codes_ofCodes h]

theorem ofCodes_append (cs ds : List Nat) : ofCodes (cs ++ ds) = ofCodes cs ++ ofCodes ds :=
  List.flatMap_append

/-- One text stands at the front of another as its characters do. -/
theorem ofCodes_prefix_iff {cs ds : List Nat} (hcs : Scalars cs) (hds : Scalars ds) :
    ofCodes ds <+: ofCodes cs ↔ ds <+: cs := by
  constructor
  · rintro ⟨t, ht⟩
    have hcodes := codes_ofCodes_append hds t
    rw [ht, codes_ofCodes hcs] at hcodes
    exact ⟨codes t, hcodes.symm⟩
  · rintro ⟨es, rfl⟩
    exact ⟨ofCodes es, (ofCodes_append ds es).symm⟩

end Scalars

section Boundaries

variable {cs ds : List Nat} {i k : Nat}

theorem isTail_eq_true {n : Nat} (hlow : 0x80 ≤ n) (hhigh : n ≤ 0xBF) :
    isTail n.toUInt8 = true := by
  have hn := toNat_toUInt8 (n := n) (by omega)
  simp only [isTail, UInt8.le_iff_toNat_le, hn, UInt8.reduceToNat, hlow, hhigh,
    decide_true, Bool.and_self]

theorem isTail_eq_false {n : Nat} (h : n < 0x80 ∨ 0xC0 ≤ n) (hn : n < 256) :
    isTail n.toUInt8 = false := by
  have hn := toNat_toUInt8 hn
  simp only [isTail, UInt8.le_iff_toNat_le, hn, UInt8.reduceToNat, Bool.and_eq_false_iff,
    decide_eq_false_iff_not]
  omega

/-- A character has a byte that starts it, and all others continue it. -/
theorem encode_eq_cons {c : Nat} (hc : isScalar c = true) :
    ∃ b bs, encode c = b :: bs ∧ isTail b = false ∧ ∀ x ∈ bs, isTail x = true := by
  have hrange := isScalar_iff.1 hc
  unfold encode
  rw [hc]
  split
  · exact ⟨_, _, rfl, isTail_eq_false (by omega) (by omega), by simp⟩
  split
  · refine ⟨_, _, rfl, isTail_eq_false (by omega) (by omega), List.forall_mem_singleton.2 ?_⟩
    exact isTail_eq_true (by omega) (by omega)
  split
  · contradiction
  split
  · refine ⟨_, _, rfl, isTail_eq_false (by omega) (by omega),
      List.forall_mem_cons.2 ⟨?_, List.forall_mem_singleton.2 ?_⟩⟩
    · exact isTail_eq_true (by omega) (by omega)
    · exact isTail_eq_true (by omega) (by omega)
  · refine ⟨_, _, rfl, isTail_eq_false (by omega) (by omega),
      List.forall_mem_cons.2 ⟨?_, List.forall_mem_cons.2 ⟨?_, List.forall_mem_singleton.2 ?_⟩⟩⟩
    · exact isTail_eq_true (by omega) (by omega)
    · exact isTail_eq_true (by omega) (by omega)
    · exact isTail_eq_true (by omega) (by omega)

/-- The number of bytes in front of a position. -/
def offset (cs : List Nat) (k : Nat) : Nat := (ofCodes (cs.take k)).length

theorem ofCodes_take_append_drop (cs : List Nat) (k : Nat) : ofCodes (cs.take k) ++
    ofCodes (cs.drop k) = ofCodes cs := by
  rw [← ofCodes_append, List.take_append_drop]

theorem drop_offset (cs : List Nat) (k : Nat) :
    (ofCodes cs).drop (offset cs k) = ofCodes (cs.drop k) := by
  rw [← ofCodes_take_append_drop cs k, offset, List.drop_left]

theorem take_offset (cs : List Nat) (k : Nat) :
    (ofCodes cs).take (offset cs k) = ofCodes (cs.take k) := by
  rw [← ofCodes_take_append_drop cs k, offset, List.take_left]

theorem offset_le (cs : List Nat) (k : Nat) : offset cs k ≤ (ofCodes cs).length := by
  rw [← ofCodes_take_append_drop cs k, List.length_append]
  exact Nat.le_add_right _ _

/-- Later positions have later offsets. -/
theorem offset_lt {j : Nat} (h : j < k) (hk : k ≤ cs.length) : offset cs j < offset cs k := by
  obtain ⟨n, rfl⟩ : ∃ n, k = j + (n + 1) := ⟨k - j - 1, by omega⟩
  obtain ⟨c, es, hdrop⟩ : ∃ c es, cs.drop j = c :: es :=
    List.exists_cons_of_ne_nil (by rw [Ne, List.drop_eq_nil_iff]; omega)
  have hne := List.length_pos_iff.2 (encode_ne_nil c)
  rw [offset, offset, List.take_add, hdrop, List.take_succ_cons, ofCodes_append, ofCodes, ofCodes,
    List.flatMap_cons, List.length_append, List.length_append]
  omega

/-- A byte that continues no character starts one. -/
theorem exists_boundary {b : UInt8} {rest : Text} (hcs : Scalars cs)
    (hdrop : (ofCodes cs).drop i = b :: rest)
    (hb : isTail b = false) : ∃ k ≤ cs.length, offset cs k = i := by
  induction cs generalizing i with
  | nil =>
    rw [show ofCodes [] = [] from rfl, List.drop_nil] at hdrop
    cases hdrop
  | cons c cs ih =>
    obtain ⟨hc, hcs⟩ := List.forall_mem_cons.1 hcs
    obtain ⟨a, as, hencode, -, htail⟩ := encode_eq_cons hc
    have htext : ofCodes (c :: cs) = encode c ++ ofCodes cs := List.flatMap_cons
    rw [htext] at hdrop
    rcases Nat.lt_or_ge i (encode c).length with hlt | hle
    · cases i with
      | zero => exact ⟨0, Nat.zero_le _, rfl⟩
      | succ i =>
        -- Within a character there are only bytes that continue it.
        rw [hencode, List.cons_append, List.drop_succ_cons] at hdrop
        rw [hencode, List.length_cons] at hlt
        have hmem : b ∈ as := by
          rw [List.drop_append_of_le_length (by omega), List.drop_eq_getElem_cons (by omega),
            List.cons_append] at hdrop
          obtain ⟨rfl, -⟩ := List.cons.inj hdrop
          exact List.getElem_mem _
        rw [htail b hmem] at hb
        cases hb
    · rw [List.drop_append, List.drop_eq_nil_of_le hle, List.nil_append] at hdrop
      obtain ⟨k, hk, hoffset⟩ := ih hcs hdrop
      refine ⟨k + 1, Nat.succ_le_succ hk, ?_⟩
      rw [offset, List.take_succ_cons, ofCodes, List.flatMap_cons, List.length_append]
      show (encode c).length + offset cs k = i
      omega

end Boundaries

section Search

/-- The offsets at which the bytes of one text occur in another. -/
def Offsets (t sub : Text) : Set Nat := {i | i ≤ t.length ∧ sub <+: t.drop i}

/-- The positions at which some characters occur among others. -/
def Positions (cs ds : List Nat) : Set Nat := {k | k ≤ cs.length ∧ ds <+: cs.drop k}

variable {t sub : Text} {cs ds : List Nat} {b : UInt8} {i k : Nat}

theorem startsWith_iff : startsWith t sub = true ↔ sub <+: t := List.isPrefixOf_iff_prefix

theorem zero_mem_offsets : 0 ∈ Offsets t sub ↔ sub <+: t := by
  simp [Offsets]

theorem succ_mem_offsets : i + 1 ∈ Offsets (b :: t) sub ↔ i ∈ Offsets t sub := by
  simp [Offsets]

theorem offsets_nil : Offsets [] sub = if sub = [] then {0} else ∅ := by
  ext i
  by_cases h : sub = [] <;> simp [Offsets, h]

/-- A search from the front finds the first occurrence. -/
theorem find?_isLeast (h : find? t sub = some i) : IsLeast (Offsets t sub) i := by
  induction t generalizing i with
  | nil =>
    by_cases hsub : sub = []
    · simp_all [find?, offsets_nil]
    · simp_all [find?]
  | cons b t ih =>
    rw [find?] at h
    split at h
    · rename_i hfirst
      obtain rfl := Option.some.inj h
      exact ⟨zero_mem_offsets.2 (startsWith_iff.1 hfirst), fun j _ => Nat.zero_le j⟩
    · rename_i hfirst
      obtain ⟨j, hj, rfl⟩ := Option.map_eq_some_iff.1 h
      obtain ⟨hmem, hleast⟩ := ih hj
      refine ⟨succ_mem_offsets.2 hmem, fun l hl => ?_⟩
      cases l with
      | zero => exact absurd (startsWith_iff.2 (zero_mem_offsets.1 hl)) hfirst
      | succ l => exact Nat.succ_le_succ (hleast (succ_mem_offsets.1 hl))

theorem offsets_eq_empty (h : find? t sub = none) : Offsets t sub = ∅ := by
  induction t with
  | nil =>
    by_cases hsub : sub = [] <;> simp_all [find?, offsets_nil]
  | cons b t ih =>
    rw [find?] at h
    split at h
    · cases h
    · rename_i hfirst
      have hrest := ih (Option.map_eq_none_iff.1 h)
      refine Set.eq_empty_iff_forall_notMem.2 fun l hl => ?_
      cases l with
      | zero => exact hfirst (startsWith_iff.2 (zero_mem_offsets.1 hl))
      | succ l =>
        have hmem := succ_mem_offsets.1 hl
        rw [hrest] at hmem
        exact hmem

theorem find?_of_findLast? (h : findLast? t sub = none) : find? t sub = none := by
  induction t with
  | nil =>
    by_cases hsub : sub = [] <;> simp_all [find?, findLast?]
  | cons b t ih =>
    rw [findLast?] at h
    cases hlast : findLast? t sub with
    | some j => simp [hlast] at h
    | none => simp_all [find?]

/-- A search from the end finds the last occurrence. -/
theorem findLast?_isGreatest (h : findLast? t sub = some i) : IsGreatest (Offsets t sub) i := by
  induction t generalizing i with
  | nil =>
    by_cases hsub : sub = []
    · simp_all [findLast?, offsets_nil]
    · simp_all [findLast?]
  | cons b t ih =>
    rw [findLast?] at h
    cases hlast : findLast? t sub with
    | some j =>
      obtain ⟨hmem, hgreatest⟩ := ih hlast
      simp only [hlast, Option.some.injEq] at h
      subst h
      refine ⟨succ_mem_offsets.2 hmem, fun l hl => ?_⟩
      cases l with
      | zero => exact Nat.zero_le _
      | succ l => exact Nat.succ_le_succ (hgreatest (succ_mem_offsets.1 hl))
    | none =>
      have hrest := offsets_eq_empty (find?_of_findLast? hlast)
      simp only [hlast, Option.ite_none_right_eq_some, Option.some.injEq] at h
      obtain ⟨hfirst, rfl⟩ := h
      refine ⟨zero_mem_offsets.2 (startsWith_iff.1 hfirst), fun l hl => ?_⟩
      cases l with
      | zero => exact Nat.le_refl _
      | succ l =>
        have hmem := succ_mem_offsets.1 hl
        rw [hrest] at hmem
        exact hmem.elim

end Search

section Places

variable {cs ds : List Nat} {i k : Nat}

/-- Characters occur where their bytes do. -/
theorem offset_mem_offsets (h : k ∈ Positions cs ds) :
    offset cs k ∈ Offsets (ofCodes cs) (ofCodes ds) := by
  obtain ⟨hk, es, hes⟩ := h
  refine ⟨offset_le cs k, ofCodes es, ?_⟩
  rw [drop_offset, ← ofCodes_append, hes]

variable (hcs : Scalars cs) (hds : Scalars ds)

include hcs hds

/-- Bytes of some characters occur only where the characters do. -/
theorem exists_position (hne : ds ≠ []) (h : i ∈ Offsets (ofCodes cs) (ofCodes ds)) :
    ∃ k ∈ Positions cs ds, offset cs k = i := by
  obtain ⟨-, hprefix⟩ := h
  have hds' := hds
  obtain ⟨d, ds', rfl⟩ := List.exists_cons_of_ne_nil hne
  obtain ⟨b, bs, hencode, hb, -⟩ := encode_eq_cons (hds d List.mem_cons_self)
  have hfirst : ofCodes (d :: ds') = b :: (bs ++ ofCodes ds') := by
    rw [ofCodes, List.flatMap_cons, hencode]
    rfl
  obtain ⟨rest, hrest⟩ := hprefix
  have hdrop : (ofCodes cs).drop i = b :: (bs ++ ofCodes ds' ++ rest) := by
    rw [← hrest, hfirst, List.cons_append]
  obtain ⟨k, hk, rfl⟩ := exists_boundary hcs hdrop hb
  refine ⟨k, ⟨hk, (ofCodes_prefix_iff (hcs.drop k) hds').1 ?_⟩, rfl⟩
  rw [← drop_offset]
  exact ⟨rest, hrest⟩

/-- The first occurrence of the bytes is the first of the characters. -/
theorem isLeast_positions (h : IsLeast (Offsets (ofCodes cs) (ofCodes ds)) i) :
    ∃ k, offset cs k = i ∧ IsLeast (Positions cs ds) k := by
  obtain ⟨hmem, hleast⟩ := h
  by_cases hne : ds = []
  · subst hne
    have hzero : i ≤ 0 := hleast ⟨Nat.zero_le _, List.nil_prefix⟩
    obtain rfl := Nat.le_zero.1 hzero
    exact ⟨0, rfl, ⟨Nat.zero_le _, List.nil_prefix⟩, fun j _ => Nat.zero_le j⟩
  · obtain ⟨k, hk, rfl⟩ := exists_position hcs hds hne hmem
    refine ⟨k, rfl, hk, fun j hj => Nat.le_of_not_lt fun hlt => ?_⟩
    have hless := offset_lt hlt hk.1
    have hle := hleast (offset_mem_offsets hj)
    omega

/-- The last occurrence of the bytes is the last of the characters. -/
theorem isGreatest_positions (h : IsGreatest (Offsets (ofCodes cs) (ofCodes ds)) i) :
    ∃ k, offset cs k = i ∧ IsGreatest (Positions cs ds) k := by
  obtain ⟨hmem, hgreatest⟩ := h
  by_cases hne : ds = []
  · subst hne
    have hend : (ofCodes cs).length ≤ i := hgreatest ⟨Nat.le_refl _, List.nil_prefix⟩
    refine ⟨cs.length, ?_, ⟨Nat.le_refl _, List.nil_prefix⟩, fun j hj => hj.1⟩
    rw [offset, List.take_length]
    exact Nat.le_antisymm hend hmem.1
  · obtain ⟨k, hk, rfl⟩ := exists_position hcs hds hne hmem
    refine ⟨k, rfl, hk, fun j hj => Nat.le_of_not_lt fun hlt => ?_⟩
    have hless := offset_lt hlt hj.1
    have hle := hgreatest (offset_mem_offsets hj)
    omega

omit hcs hds

theorem positions_eq_empty (h : Offsets (ofCodes cs) (ofCodes ds) = ∅) : Positions cs ds = ∅ := by
  refine Set.eq_empty_iff_forall_notMem.2 fun k hk => ?_
  have hmem := offset_mem_offsets hk
  rw [h] at hmem
  exact hmem

end Places

end Formulary.Text

namespace Formulary.Library.Strings

open Library

variable {t sub : Text}

section Cuts

theorem substring_eq_ok {k n : Int} {part : Text} (h : substring t k n = .ok part) :
    (0 ≤ k ∧ 0 ≤ n ∧ k + n ≤ t.characterCount) ∧
      part = Text.ofCodes ((t.codes.drop k.toNat).take n.toNat) := by
  rw [substring] at h
  split at h
  · cases h
  · rename_i hrange
    simp only [Bool.or_eq_true, decide_eq_true_eq, not_or, Int.not_lt] at hrange
    rw [Text.characterCount_eq]
    exact ⟨⟨hrange.1.1, hrange.1.2, hrange.2⟩, (Except.ok.inj h).symm⟩

theorem substring_of_range {k n : Int} (hk : 0 ≤ k) (hn : 0 ≤ n) (h : k + n ≤ t.characterCount) :
    substring t k n = .ok (Text.ofCodes ((t.codes.drop k.toNat).take n.toNat)) := by
  rw [Text.characterCount_eq] at h
  rw [substring, if_neg]
  · rfl
  · simp only [Bool.or_eq_true, decide_eq_true_eq, not_or, Int.not_lt]
    exact ⟨⟨hk, hn⟩, h⟩

/-- A text can be cut out of another at a position. -/
def Occurs (t sub : Text) (k : Int) : Prop :=
  k + sub.characterCount ≤ t.characterCount ∧ substring t k sub.characterCount = .ok sub

theorem occurs_iff (hsub : sub.isUtf8 = true) (k : Nat) : Occurs t sub k ↔
    k ∈ Text.Positions t.codes sub.codes := by
  have hscalars := Text.scalars_codes t
  rw [Occurs, Text.characterCount_eq, Text.characterCount_eq]
  constructor
  · rintro ⟨hle, hcut⟩
    obtain ⟨-, hpart⟩ := substring_eq_ok hcut
    have hcodes := congrArg Text.codes hpart
    rw [Text.codes_ofCodes ((hscalars.drop _).take _), Int.toNat_natCast,
      Int.toNat_natCast] at hcodes
    exact ⟨by omega, hcodes ▸ List.take_prefix _ _⟩
  · rintro ⟨hle, hprefix⟩
    have hlength := hprefix.length_le
    rw [List.length_drop] at hlength
    refine ⟨by omega, ?_⟩
    rw [substring_of_range (by omega) (by omega) (by rw [Text.characterCount_eq]; omega),
      Int.toNat_natCast, Int.toNat_natCast, ← List.prefix_iff_eq_take.1 hprefix,
      Text.ofCodes_codes hsub]

end Cuts

section Searches

/-- An answer that is the position that is sought, or minus one where there is none. -/
def Answers (sought : Set Int → Int → Prop) (positions : Set Int) (k : Int) : Prop :=
  sought positions k ∨ positions = ∅ ∧ k = -1

theorem characterCount_take_offset {cs : List Nat} (hcs : Text.Scalars cs) {k : Nat}
    (hk : k ≤ cs.length) :
    Text.characterCount ((Text.ofCodes cs).take (Text.offset cs k)) = k := by
  rw [Text.take_offset, Text.characterCount_ofCodes (hcs.take k), List.length_take,
    Nat.min_eq_left hk]

theorem positions_drop {cs ds : List Nat} {n k : Nat} (hn : n ≤ cs.length) :
    k ∈ Text.Positions (cs.drop n) ds ↔ n + k ∈ Text.Positions cs ds := by
  simp only [Text.Positions, Set.mem_ofPred_eq, List.length_drop, List.drop_drop]
  constructor
  · rintro ⟨hk, hprefix⟩
    exact ⟨by omega, hprefix⟩
  · rintro ⟨hk, hprefix⟩
    exact ⟨by omega, hprefix⟩

/-- The occurrences from a position on are those among the characters from there on. -/
theorem occurs_from_iff (hsub : sub.isUtf8 = true) {first : Nat}
    (hfirst : first ≤ t.codes.length) {k : Int} :
    first ≤ k ∧ Occurs t sub k ↔ ∃ d : Nat, k = (first + d : Nat) ∧
      d ∈ Text.Positions (t.codes.drop first) sub.codes := by
  constructor
  · rintro ⟨hk, hoccurs⟩
    obtain ⟨d, rfl⟩ : ∃ d : Nat, k = (first + d : Nat) := ⟨(k - first).toNat, by omega⟩
    exact ⟨d, rfl, (positions_drop hfirst).2 ((occurs_iff hsub _).1 hoccurs)⟩
  · rintro ⟨d, rfl, hd⟩
    exact ⟨by omega, (occurs_iff hsub _).2 ((positions_drop hfirst).1 hd)⟩

variable (ht : t.isUtf8 = true) (hsub : sub.isUtf8 = true)

include hsub

omit hsub in
theorem indexOfFrom_eq (t sub : Text) (start : Int) :
    indexOfFrom t sub start =
      if t.codes.length < start.toNat then -1
      else
        match Text.find? (Text.ofCodes (t.codes.drop start.toNat)) sub with
        | some i =>
          start.toNat + Text.characterCount ((Text.ofCodes (t.codes.drop start.toNat)).take i)
        | none => -1 :=
  rfl

/-- A search from a position on gives the first occurrence that does not start before it. -/
theorem indexOfFrom_answers (start : Int) :
    Answers IsLeast {k | max start 0 ≤ k ∧ Occurs t sub k} (indexOfFrom t sub start) := by
  have hfirst : max start 0 = (start.toNat : Int) := (Int.toNat_eq_max start).symm
  rw [hfirst, indexOfFrom_eq]
  generalize start.toNat = first
  split
  · rename_i hlt
    refine .inr ⟨Set.eq_empty_iff_forall_notMem.2 fun k hk => ?_, rfl⟩
    obtain ⟨hle, hend, -⟩ := hk
    rw [Text.characterCount_eq, Text.characterCount_eq] at hend
    omega
  · rename_i hle
    have hle : first ≤ t.codes.length := Nat.le_of_not_lt hle
    have hrest := (Text.scalars_codes t).drop first
    have hoffsets : Text.Offsets (Text.ofCodes (t.codes.drop first)) (Text.ofCodes sub.codes) =
        Text.Offsets (Text.ofCodes (t.codes.drop first)) sub := by rw [Text.ofCodes_codes hsub]
    cases hfind : Text.find? (Text.ofCodes (t.codes.drop first)) sub with
    | some i =>
      obtain ⟨n, rfl, hmem, hleast⟩ :=
        Text.isLeast_positions hrest (Text.scalars_codes sub) (hoffsets ▸ Text.find?_isLeast hfind)
      simp only [characterCount_take_offset hrest hmem.1, ← Int.natCast_add]
      refine .inl ⟨(occurs_from_iff hsub hle).2 ⟨n, rfl, hmem⟩, fun k hk => ?_⟩
      obtain ⟨d, rfl, hd⟩ := (occurs_from_iff hsub hle).1 hk
      have hnd := hleast hd
      omega
    | none =>
      have hempty := Text.positions_eq_empty (hoffsets ▸ Text.offsets_eq_empty hfind)
      refine .inr ⟨Set.eq_empty_iff_forall_notMem.2 fun k hk => ?_, rfl⟩
      obtain ⟨d, -, hd⟩ := (occurs_from_iff hsub hle).1 hk
      rw [hempty] at hd
      exact hd

include ht

/-- A search from the end gives the last occurrence. -/
theorem lastIndexOf_answers : Answers IsGreatest {k | 0 ≤ k ∧ Occurs t sub k}
    (lastIndexOf t sub) := by
  have hscalars := Text.scalars_codes t
  have hoffsets : Text.Offsets (Text.ofCodes t.codes) (Text.ofCodes sub.codes) =
      Text.Offsets t sub := by
    rw [Text.ofCodes_codes ht, Text.ofCodes_codes hsub]
  have hoccurs : ∀ k : Int, 0 ≤ k ∧ Occurs t sub k ↔
      ∃ d : Nat, k = (0 + d : Nat) ∧ d ∈ Text.Positions (t.codes.drop 0) sub.codes :=
    fun k => occurs_from_iff hsub (Nat.zero_le _)
  simp only [List.drop_zero, Nat.zero_add] at hoccurs
  rw [lastIndexOf]
  cases hfind : Text.findLast? t sub with
  | some i =>
    obtain ⟨n, rfl, hmem, hgreatest⟩ :=
      Text.isGreatest_positions hscalars (Text.scalars_codes sub)
        (hoffsets ▸ Text.findLast?_isGreatest hfind)
    have hcount := characterCount_take_offset hscalars hmem.1
    rw [Text.ofCodes_codes ht] at hcount
    simp only [hcount]
    refine .inl ⟨(hoccurs n).2 ⟨n, rfl, hmem⟩, fun k hk => ?_⟩
    obtain ⟨d, rfl, hd⟩ := (hoccurs k).1 hk
    exact Int.ofNat_le.2 (hgreatest hd)
  | none =>
    have hempty :=
      Text.positions_eq_empty (hoffsets ▸ Text.offsets_eq_empty (Text.find?_of_findLast? hfind))
    refine .inr ⟨Set.eq_empty_iff_forall_notMem.2 fun k hk => ?_, rfl⟩
    obtain ⟨d, -, hd⟩ := (hoccurs k).1 hk
    rw [hempty] at hd
    exact hd

end Searches

section Calls

variable {k n : Int} {part : Text}

theorem gives_substring_iff :
    library.Gives "Substring" [.string t, .int .int k, .int .int n] (.string part) ↔
      substring t k n = .ok part := by
  have hcall : library.call "Substring" [.string t, .int .int k, .int .int n] =
      some (answer ((substring t k n).map .string)) := rfl
  rw [Library.Gives, hcall, Option.some_inj, answer_eq_pure_iff]
  cases substring t k n <;> simp [Except.map]

theorem gives_substring_rest_iff :
    library.Gives "Substring" [.string t, .int .int k] (.string part) ↔
      substring t k (restLength t k) = .ok part := by
  have hcall : library.call "Substring" [.string t, .int .int k] =
      some (answer ((substring t k (restLength t k)).map .string)) := rfl
  rw [Library.Gives, hcall, Option.some_inj, answer_eq_pure_iff]
  cases substring t k (restLength t k) <;> simp [Except.map]

/-- Within a text that is short enough, 32 bits hold what is left of it. -/
theorem restLength_eq (hlength : t.characterCount < 2147483648) (hlow : 0 ≤ k)
    (hhigh : k ≤ t.characterCount) :
    restLength t k = t.characterCount - k := by
  have hcount : IntKind.int.holds (t.characterCount : Int) = true := holds_int_iff.2 (by omega)
  rw [restLength, IntKind.wrap_of_holds hcount]
  exact IntKind.wrap_of_holds (holds_int_iff.2 (by omega))

/-- Positions and minus one fit 32 bits where the text is short enough. -/
theorem holds_of_answers {sought : Set Int → Int → Prop} {positions : Set Int}
    (hlength : t.characterCount < 2147483648) (hmem : ∀ k, sought positions k → k ∈ positions)
    (hpositions : ∀ k ∈ positions, 0 ≤ k ∧ Occurs t sub k) (h : Answers sought positions k) :
    IntKind.int.holds k = true := by
  rw [holds_int_iff]
  rcases h with h | ⟨-, rfl⟩
  · obtain ⟨hnonneg, hend, -⟩ := hpositions k (hmem k h)
    omega
  · decide

/-- The library cuts a text out of another at a position, and within it. -/
def CutsOut (t sub : Text) (k : Int) : Prop :=
  k + sub.characterCount ≤ t.characterCount ∧
    library.Gives "Substring" [.string t, .int .int k, .int .int sub.characterCount] (.string sub)

theorem cutsOut_iff : CutsOut t sub k ↔ Occurs t sub k := by
  rw [CutsOut, Occurs, gives_substring_iff]

/-- The two parts of a text at a position make it up. -/
theorem substring_append_substring (ht : t.isUtf8 = true)
    (hlength : t.characterCount < 2147483648) (hlow : 0 ≤ k) (hhigh : k ≤ t.characterCount) :
    ∃ front rest, substring t 0 k = .ok front ∧ substring t k (restLength t k) = .ok rest ∧
      front ++ rest = t := by
  rw [restLength_eq hlength hlow hhigh]
  refine ⟨_, _, substring_of_range (Int.le_refl 0) hlow (by omega),
    substring_of_range hlow (by omega) (by omega), ?_⟩
  have hrest : (t.codes.drop k.toNat).take ((t.characterCount : Int) - k).toNat =
      t.codes.drop k.toNat := by
    refine List.take_of_length_le ?_
    rw [List.length_drop, Text.characterCount_eq]
    omega
  rw [hrest, Int.toNat_zero, List.drop_zero, Text.ofCodes_take_append_drop, Text.ofCodes_codes ht]

end Calls

/-- In a text of less than 2³¹ characters a search from a position on gives the first position from
there on at which the text sought is cut out, a search from the end gives the last one, and both
give minus one if there is none. A cut succeeds exactly within the text and is as long as asked for,
and the cuts up to a position and from it on are the text. -/
theorem positions_agree (ht : t.isUtf8 = true) (hsub : sub.isUtf8 = true)
    (hlength : t.characterCount < 2147483648) :
    library.Gives "Len" [.string t] (.int .int t.characterCount) ∧
      (∀ start : Int, ∃ k, library.Gives "IndexOf"
        [.string t, .string sub, .int .int start] (.int .int k) ∧
        Answers IsLeast {k | max start 0 ≤ k ∧ CutsOut t sub k} k) ∧
      (∃ k, library.Gives "LastIndexOf" [.string t, .string sub] (.int .int k) ∧
        Answers IsGreatest {k | 0 ≤ k ∧ CutsOut t sub k} k) ∧
      (∀ k n : Int,
        ((∃ part, library.Gives "Substring" [.string t, .int .int k, .int .int n] (.string part)) ↔
          0 ≤ k ∧ 0 ≤ n ∧ k + n ≤ t.characterCount) ∧
        ∀ part, library.Gives "Substring" [.string t, .int .int k, .int .int n] (.string part) →
          part.characterCount = n) ∧
      ∀ k : Int, 0 ≤ k → k ≤ t.characterCount →
        ∃ front rest, library.Gives "Substring" [.string t, .int .int 0, .int .int k]
          (.string front) ∧
          library.Gives "Substring" [.string t, .int .int k] (.string rest) ∧
            front ++ rest = t := by
  simp only [cutsOut_iff, gives_substring_iff, gives_substring_rest_iff]
  refine ⟨?_, fun start => ?_, ?_, fun k n => ⟨⟨?_, ?_⟩, ?_⟩, 
    fun k hlow hhigh => substring_append_substring ht hlength hlow hhigh⟩
  · have hlen : library.Gives "Len" [.string t] (int t.characterCount) := rfl
    rwa [int_eq (holds_int_iff.2 (by omega))] at hlen
  · have hanswers := indexOfFrom_answers hsub (t := t) start
    have hgives : library.Gives "IndexOf" [.string t, .string sub, .int .int start]
      (int (indexOfFrom t sub start)) := rfl
    rw [int_eq (holds_of_answers hlength (fun k h => h.1) (fun k hk =>
      ⟨by have := hk.1; omega, hk.2⟩) hanswers)] at hgives
    exact ⟨_, hgives, hanswers⟩
  · have hanswers := lastIndexOf_answers ht hsub
    have hgives : library.Gives "LastIndexOf" [.string t, .string sub] (int (lastIndexOf t sub)) :=
      rfl
    rw [int_eq (holds_of_answers hlength (fun k h => h.1) (fun k hk => hk) hanswers)] at hgives
    exact ⟨_, hgives, hanswers⟩
  · rintro ⟨part, hpart⟩
    exact (substring_eq_ok hpart).1
  · rintro ⟨hk, hn, hend⟩
    exact ⟨_, substring_of_range hk hn hend⟩
  · intro part hpart
    obtain ⟨⟨hk, hn, hend⟩, rfl⟩ := substring_eq_ok hpart
    rw [Text.characterCount_eq] at hend
    rw [Text.characterCount_ofCodes (((Text.scalars_codes t).drop _).take _), List.length_take,
      List.length_drop]
    omega

/-- A text of characters of one to four bytes. -/
def mixed : Text := Text.ofString "aé€é😀é"

/-- The second and the third time one of them occurs. -/
theorem positions_agree_mixed : mixed.isUtf8 = true ∧ (Text.ofString "é").isUtf8 = true ∧
    mixed.characterCount < 2147483648 ∧
    library.Gives "IndexOf" [.string mixed, .string (Text.ofString "é"),
      .int .int 2] (.int .int 3) ∧
    Answers IsLeast {k | max 2 0 ≤ k ∧ CutsOut mixed (Text.ofString "é") k} 3 ∧
    Answers IsGreatest {k | 0 ≤ k ∧ CutsOut mixed (Text.ofString "é") k} 5 := by
  have ht : mixed.isUtf8 = true := by decide
  have hsub : (Text.ofString "é").isUtf8 = true := by decide
  have hlength : mixed.characterCount < 2147483648 := by decide
  obtain ⟨-, hfirst, ⟨l, hlast, hgreatest⟩, -⟩ := positions_agree ht hsub hlength
  obtain ⟨k, hindex, hleast⟩ := hfirst 2
  have hgives : library.Gives "IndexOf" [.string mixed, .string (Text.ofString "é"), .int .int 2]
    (.int .int 3) := rfl
  have hgives' : library.Gives "LastIndexOf" [.string mixed, .string (Text.ofString "é")]
    (.int .int 5) := rfl
  cases hindex.unique hgives
  cases hlast.unique hgives'
  exact ⟨ht, hsub, hlength, hgives, hleast, hgreatest⟩

end Formulary.Library.Strings
