import Mathlib.Data.List.Forall2
import Mathlib.Order.Bounds.Basic
import Formulary.Proofs.Lexical.SearchTree

/-!
# Longest strings of a search tree

A search tree is a dictionary: of the entries that spell a string the one added last gives its kind.
A walk along the characters of a text passes the states of all its fronts, one after the other, and
so the last kind it meets is that of the longest front that the dictionary knows.
-/

namespace Formulary

open Text (Glyph caseVariants decodeFirst decodeFirst_width_le foldCode glyphsFrom)

namespace Text

/-- A code point that a table moves stands in a row that maps it there. -/
theorem mapRow_eq_or (rows : List (Nat × Nat × Nat × Nat)) (c : Nat) :
    mapRow rows c = c ∨ ∃ r ∈ rows, unmapRow (mapRow rows c) r = some c := by
  unfold mapRow
  split
  · rename_i r hr
    have hrow := List.find?_some hr
    simp only [Bool.and_eq_true, decide_eq_true_eq] at hrow
    refine .inr ⟨r, List.mem_of_find?_eq_some hr, ?_⟩
    rw [unmapRow, if_pos (by simp; omega)]
    congr 1
    omega
  · exact .inl rfl

/-- The variants of a character are the characters with the same folding. -/
theorem mem_caseVariants {c d : Nat} : d ∈ caseVariants c ↔ foldCode d = foldCode c := by
  unfold caseVariants
  rw [List.mem_cons, List.mem_filter, Bool.and_eq_true, bne_iff_ne, beq_iff_eq]
  constructor
  · rintro (rfl | ⟨-, -, h⟩)
    · rfl
    · exact h
  · intro h
    refine or_iff_not_imp_left.2 fun hne => ⟨?_, hne, h⟩
    rw [List.mem_cons, List.mem_filterMap, ← h]
    exact (mapRow_eq_or foldRows d).imp_left Eq.symm

end Text

namespace Lexical

/-- The strings that an entry spells are those it covers. -/
theorem spells_iff_covers {e : Entry} {w : List Nat} : Automaton.Spells e w ↔
    e.covers w = true := by
  unfold Automaton.Spells Automaton.variants Entry.covers
  cases e.ignoreCase with
  | false =>
    simp only [Bool.false_eq_true, if_false, List.mem_singleton, beq_iff_eq]
    rw [← List.forall₂_eq_eq_eq]
    exact ⟨fun h => h.imp fun _ _ => Eq.symm, fun h => h.imp fun _ _ => Eq.symm⟩
  | true =>
    simp only [if_true, Text.mem_caseVariants, beq_iff_eq]
    rw [← List.forall₂_eq_eq_eq, List.forall₂_map_left_iff, List.forall₂_map_right_iff]
    exact ⟨fun h => h.imp fun _ _ => Eq.symm, fun h => h.imp fun _ _ => Eq.symm⟩

section Dictionary

variable {codes : List Nat}

theorem length_eq_of_covers {e : Entry} (h : e.covers codes = true) :
    e.codes.length = codes.length := by
  unfold Entry.covers at h
  split at h
  · simpa using congrArg List.length (beq_iff_eq.1 h)
  · rw [beq_iff_eq.1 h]

theorem le_foldl_width (d : Dictionary) (n : Nat) :
    n ≤ d.foldl (fun n e => max n e.codes.length) n := by
  induction d generalizing n with
  | nil => exact Nat.le_refl n
  | cons e d ih => exact Nat.le_trans (Nat.le_max_left _ _) (ih _)

theorem length_le_foldl_width {d : Dictionary} {e : Entry} (he : e ∈ d) (n : Nat) :
    e.codes.length ≤ d.foldl (fun n e => max n e.codes.length) n := by
  induction d generalizing n with
  | nil => cases he
  | cons x d ih =>
    rcases List.mem_cons.1 he with rfl | he
    · exact Nat.le_trans (Nat.le_max_right _ _) (le_foldl_width d _)
    · exact ih he _

theorem longestUpTo_append (d : Dictionary) (more : List Nat) {n : Nat} (h : n ≤ codes.length) :
    d.longestUpTo (codes ++ more) n = d.longestUpTo codes n := by
  induction n with
  | zero => rfl
  | succ n ih =>
    rw [Dictionary.longestUpTo, Dictionary.longestUpTo, List.take_append_of_le_length h,
      ih (Nat.le_of_succ_le h)]

theorem longestUpTo_of_none {d : Dictionary} {m n : Nat} (hmn : m ≤ n)
    (h : ∀ k, m < k → k ≤ n → d.kindOf? (codes.take k) = none) :
    d.longestUpTo codes n = d.longestUpTo codes m := by
  induction n with
  | zero => rw [Nat.le_zero.1 hmn]
  | succ n ih =>
    rcases Nat.lt_or_ge n m with hlt | hle
    · rw [Nat.le_antisymm hmn hlt]
    · rw [Dictionary.longestUpTo, h (n + 1) (Nat.lt_succ_of_le hle) (Nat.le_refl _)]
      exact ih hle fun k hk hkn => h k hk (Nat.le_succ_of_le hkn)

theorem longestUpTo_le {d : Dictionary} {n m : Nat} {k : Kind}
    (h : d.longestUpTo codes n = some (k, m)) : m ≤ n := by
  induction n with
  | zero => cases h
  | succ n ih =>
    rw [Dictionary.longestUpTo] at h
    split at h
    · cases h
      exact Nat.le_refl _
    · exact Nat.le_succ_of_le (ih h)

/-- No entry is longer than the width, so that the whole text may be searched. -/
theorem longest?_eq (d : Dictionary) (gs : List Glyph) :
    d.longest? gs = d.longestUpTo (gs.map (·.code)) gs.length := by
  have hnone : ∀ k, min d.width gs.length < k → k ≤ gs.length →
      d.kindOf? ((gs.map (·.code)).take k) = none := by
    intro k hk hkn
    have hmiss : d.find? (·.covers ((gs.map (·.code)).take k)) = none := by
      refine List.find?_eq_none.2 fun e he hcovers => ?_
      have hlength := length_eq_of_covers hcovers
      have hwidth : e.codes.length ≤ d.width := length_le_foldl_width he 0
      simp only [List.length_take, List.length_map] at hlength
      omega
    rw [Dictionary.kindOf?, hmiss]
    rfl
  have hsplit : gs.map (·.code) = (gs.take d.width).map (·.code) ++
      (gs.drop d.width).map (·.code) := by
    rw [← List.map_append, List.take_append_drop]
  have hlength : ((gs.take d.width).map (·.code)).length = min d.width gs.length := by simp
  rw [longestUpTo_of_none (Nat.min_le_right _ _) hnone, Dictionary.longest?, hlength, hsplit,
    longestUpTo_append _ _ hlength.ge]

end Dictionary

namespace Automaton

variable {a : Automaton}

/-- The last number up to a bound, and not zero, at which there is a kind. -/
structure IsLast (kindOf : Nat → Kind) (bound n : Nat) : Prop where
  pos : 0 < n
  le : n ≤ bound
  kind_ne : kindOf n ≠ .eof
  rest : ∀ m, n < m → m ≤ bound → kindOf m = .eof

section Shifted

variable {f g : Nat → Kind} {bound n : Nat} (h : ∀ m, g (m + 1) = f m)
include h

theorem IsLast.succ (hn : IsLast f bound n) : IsLast g (bound + 1) (n + 1) where
  pos := Nat.succ_pos n
  le := Nat.succ_le_succ hn.le
  kind_ne := by
    rw [h]
    exact hn.kind_ne
  rest m hm hle := by
    obtain ⟨m, rfl⟩ := Nat.exists_eq_add_of_lt hm
    rw [h]
    exact hn.rest _ (by omega) (Nat.le_of_succ_le_succ hle)

theorem isLast_one (hzero : f 0 ≠ .eof) (hrest : ∀ m, 0 < m → m ≤ bound → f m = .eof) :
    IsLast g (bound + 1) 1 where
  pos := Nat.zero_lt_one
  le := Nat.succ_le_succ (Nat.zero_le _)
  kind_ne := by
    rw [h]
    exact hzero
  rest m hm hle := by
    obtain ⟨m, rfl⟩ := Nat.exists_eq_add_of_lt hm
    rw [h]
    exact hrest _ (by omega) (Nat.le_of_succ_le_succ hle)

theorem eof_succ (hzero : f 0 = .eof) (hrest : ∀ m, 0 < m → m ≤ bound → f m = .eof) :
    ∀ m, 0 < m → m ≤ bound + 1 → g m = .eof := by
  intro m hpos hle
  obtain ⟨m, rfl⟩ := Nat.exists_eq_add_of_lt hpos
  rw [Nat.zero_add, h]
  rcases Nat.eq_zero_or_pos m with rfl | hm
  · exact hzero
  · exact hrest m hm (by omega)

end Shifted

/-- The number of bytes of some characters. -/
def byteLength (gs : List Glyph) : Nat := (gs.flatMap (·.bytes)).length

def frontKind (a : Automaton) (i : Nat) (gs : List Glyph) (m : Nat) : Kind :=
  a.kindFrom i ((gs.take m).map (·.code))

/-- A walk along a text finds the longest front with a kind, and where there is none what was found
before. -/
theorem matchFrom_spec (t : Text) (skip i length : Nat) (best : Kind × Nat) :
    (∃ n, IsLast (a.frontKind i (glyphsFrom skip t)) (glyphsFrom skip t).length n ∧
      a.matchFrom skip i length best t = (a.frontKind i (glyphsFrom skip t) n,
        length + byteLength ((glyphsFrom skip t).take n))) ∨
    (∀ m, 0 < m → m ≤ (glyphsFrom skip t).length →
      a.frontKind i (glyphsFrom skip t) m = .eof) ∧ a.matchFrom skip i length best t = best := by
  induction t generalizing skip i length best with
  | nil =>
    rw [glyphsFrom, matchFrom]
    exact .inr ⟨fun m hpos hm => absurd hpos (by simpa using hm), rfl⟩
  | cons b rest ih =>
    cases skip with
    | succ skip => exact ih skip i length best
    | zero =>
      have hwidth := decodeFirst_width_le (b :: rest)
      rw [glyphsFrom, matchFrom]
      generalize decodeFirst (b :: rest) = first at hwidth
      obtain ⟨code, width⟩ := first
      dsimp only at hwidth ⊢
      cases hstep : a.step i code with
      | none =>
        refine .inr ⟨fun m hpos _ => ?_, rfl⟩
        obtain ⟨m, rfl⟩ := Nat.exists_eq_add_of_lt hpos
        rw [frontKind, Nat.zero_add, List.take_succ_cons, List.map_cons, kindFrom_cons, hstep]
        rfl
      | some j =>
        specialize ih (width - 1) j (length + width)
          (if a.kind j != .eof then (a.kind j, length + width) else best)
        generalize glyphsFrom (width - 1) rest = gs at ih ⊢
        have hfront : ∀ m, a.frontKind i (⟨code, (b :: rest).take width⟩ :: gs) (m + 1) =
            a.frontKind j gs m := by
          intro m
          rw [frontKind, List.take_succ_cons, List.map_cons, kindFrom_cons, hstep]
          rfl
        have hbytes : ∀ m, byteLength ((⟨code, (b :: rest).take width⟩ :: gs).take (m + 1)) =
            width + byteLength (gs.take m) := by
          intro m
          rw [List.take_succ_cons, byteLength, List.flatMap_cons, List.length_append,
            List.length_take, Nat.min_eq_left hwidth, byteLength]
        rcases ih with ⟨n, hn, hmatch⟩ | ⟨hnone, hmatch⟩
        · refine .inl ⟨n + 1, hn.succ hfront, ?_⟩
          rw [hfront, hbytes, ← Nat.add_assoc]
          exact hmatch
        · by_cases heof : a.kind j = .eof
          · refine .inr ⟨eof_succ hfront heof hnone, ?_⟩
            simpa [heof] using hmatch
          · refine .inl ⟨1, isLast_one hfront heof hnone, ?_⟩
            have hkind : a.frontKind j gs 0 = a.kind j := rfl
            rw [hfront 0, hbytes 0, hkind]
            simpa [heof, byteLength] using hmatch

theorem matchFrom_root (t : Text) :
    (∃ n, IsLast (a.frontKind 0 t.glyphs) t.glyphs.length n ∧ a.matchFrom 0 0 0 (.eof, 0) t =
      (a.frontKind 0 t.glyphs n, byteLength (t.glyphs.take n))) ∨
    (∀ m, 0 < m → m ≤ t.glyphs.length → a.frontKind 0 t.glyphs m = .eof) ∧
      a.matchFrom 0 0 0 (.eof, 0) t = (.eof, 0) := by
  simpa only [Text.glyphs, Nat.zero_add] using a.matchFrom_spec t 0 0 0 (.eof, 0)

/-- A string has the kind of the entry added last of those that cover it. -/
theorem foldl_insert_spec (es : List Entry) :
    (es.foldl insert empty).Sound ∧
      ∀ w, (es.foldl insert empty).kindAt w =
        ((es.reverse.find? (·.covers w)).map (·.kind)).getD .eof := by
  induction es using List.reverseRecOn with
  | nil => exact ⟨sound_empty, kindAt_empty⟩
  | append_singleton es e ih =>
    obtain ⟨hsound, hkind⟩ := ih
    rw [List.foldl_append, List.foldl_cons, List.foldl_nil]
    obtain ⟨hinsert, hinsertKind⟩ := insert_spec hsound e
    refine ⟨hinsert, fun w => ?_⟩
    rw [hinsertKind, hkind, List.reverse_append, List.reverse_singleton, List.singleton_append,
      List.find?_cons]
    by_cases hw : Spells e w
    · rw [if_pos hw, spells_iff_covers.1 hw]
      rfl
    · have hcovers : e.covers w = false := by simpa [spells_iff_covers] using hw
      rw [if_neg hw, hcovers]

/-- A string equals another character by character, up to case if that is ignored. -/
def Equals (ignoreCase : Bool) (codes w : List Nat) : Prop :=
  List.Forall₂ (fun c d => if ignoreCase then foldCode c = foldCode d else c = d) codes w

/-- A string that equals so many characters at the front. -/
def Stands (p : Addition) (gs : List Glyph) (n : Nat) : Prop :=
  n ≤ gs.length ∧ Equals p.ignoreCase p.text.codes ((gs.take n).map (·.code))

theorem covers_entry {p : Addition} {w : List Nat} :
    p.entry.covers w = true ↔ Equals p.ignoreCase p.text.codes w := by
  unfold Addition.entry Entry.covers Equals
  cases p.ignoreCase with
  | false =>
    simp only [Bool.false_eq_true, if_false, beq_iff_eq]
    rw [List.forall₂_eq_eq_eq]
  | true =>
    simp only [if_true, beq_iff_eq]
    rw [← List.forall₂_eq_eq_eq, List.forall₂_map_left_iff, List.forall₂_map_right_iff]

/-- A string has the kind of the addition that was the last to stand for it. -/
theorem kindAt_ofAdditions (ps : List Addition) (w : List Nat) : (ofAdditions ps).kindAt w =
    ((ps.reverse.find? (·.entry.covers w)).map (·.kind)).getD .eof := by
  have htree : ofAdditions ps = (ps.map Addition.entry).foldl insert empty := by
    rw [List.foldl_map]
    rfl
  rw [htree, (foldl_insert_spec _).2, ← List.map_reverse, List.find?_map, Option.map_map]
  rfl

/-- Either some addition stands for a string, and the last such gives its kind, or none does. -/
theorem kindAt_cases (ps : List Addition) (w : List Nat) :
    (∃ (before : List Addition) (p : Addition) (after : List Addition),
      ps = before ++ p :: after ∧ Equals p.ignoreCase p.text.codes w ∧
      (∀ q ∈ after, ¬Equals q.ignoreCase q.text.codes w) ∧ (ofAdditions ps).kindAt w = p.kind) ∨
    (∀ p ∈ ps, ¬Equals p.ignoreCase p.text.codes w) ∧ (ofAdditions ps).kindAt w = .eof := by
  rw [kindAt_ofAdditions]
  cases h : ps.reverse.find? (·.entry.covers w) with
  | none =>
    refine .inr ⟨fun p hp => ?_, rfl⟩
    rw [← covers_entry]
    exact List.find?_eq_none.1 h p (List.mem_reverse.2 hp)
  | some p =>
    obtain ⟨hcovers, before, after, hps, hbefore⟩ := List.find?_eq_some_iff_append.1 h
    refine .inl ⟨after.reverse, p, before.reverse, ?_, covers_entry.1 hcovers, fun q hq => ?_, rfl⟩
    · rw [← List.reverse_reverse ps, hps]
      simp
    · rw [← covers_entry]
      simpa using hbefore q (List.mem_reverse.1 hq)

/-- Where an addition stands for a string, the string has a kind. -/
theorem kindAt_ne_eof {ps : List Addition} (kinds : ∀ p ∈ ps, p.kind ≠ .eof) {p : Addition}
    (hp : p ∈ ps) {w : List Nat}
    (h : Equals p.ignoreCase p.text.codes w) : (ofAdditions ps).kindAt w ≠ .eof := by
  rcases kindAt_cases ps w with ⟨before, q, after, rfl, -, -, hkind⟩ | ⟨hnone, -⟩
  · rw [hkind]
    exact kinds q (List.mem_append_right _ List.mem_cons_self)
  · exact absurd h (hnone p hp)

/-- A string with characters stands for no empty front. -/
theorem pos_of_stands {p : Addition} (hp : p.text ≠ []) {gs : List Glyph} {m : Nat}
    (h : Stands p gs m) : 0 < m := by
  refine Nat.pos_of_ne_zero fun hm => ?_
  subst hm
  have hcodes : p.text.codes = [] := by
    have hlength := h.2.length_eq
    rw [List.take_zero, List.map_nil, List.length_nil] at hlength
    exact List.length_eq_zero_iff.1 hlength
  cases htext : p.text with
  | nil => exact hp htext
  | cons b rest =>
    rw [htext] at hcodes
    cases hcodes

/-- The longest string of a tree is the longest that was added, with the kind it was added with
last. -/
theorem matchAt_longest (ps : List Addition) (nonempty : ∀ p ∈ ps, p.text ≠ [])
    (kinds : ∀ p ∈ ps, p.kind ≠ .eof) (text : Text) (offset : Nat) :
    (∃ n, IsGreatest {m | ∃ p ∈ ps, Stands p (Text.glyphs (text.drop offset)) m} n ∧
      ∃ before p after, ps = before ++ p :: after ∧ Stands p (Text.glyphs (text.drop offset)) n ∧
        (∀ q ∈ after, ¬Stands q (Text.glyphs (text.drop offset)) n) ∧
          (ofAdditions ps).matchAt text offset =
            (p.kind, byteLength ((Text.glyphs (text.drop offset)).take n))) ∨
    (∀ p ∈ ps, ∀ m, ¬Stands p (Text.glyphs (text.drop offset)) m) ∧
      (ofAdditions ps).matchAt text offset = (.eof, 0) := by
  have hroot := (ofAdditions ps).matchFrom_root (text.drop offset)
  unfold matchAt
  generalize Text.glyphs (text.drop offset) = gs at hroot ⊢
  have hkind : ∀ p ∈ ps, ∀ m, Stands p gs m → (ofAdditions ps).frontKind 0 gs m ≠ .eof :=
    fun p hp m h => kindAt_ne_eof kinds hp h.2
  rcases hroot with ⟨n, hn, hmatch⟩ | ⟨hnone, hmatch⟩
  · rcases kindAt_cases ps ((gs.take n).map (·.code)) with
      ⟨before, p, after, hps, hp, hafter, hlast⟩ | ⟨-, heof⟩
    · have hmem : p ∈ ps := hps ▸ List.mem_append_right before List.mem_cons_self
      refine .inl ⟨n, ⟨⟨p, hmem, hn.le, hp⟩, fun m ⟨q, hq, hm⟩ => ?_⟩, before, p, after,
        hps, ⟨hn.le, hp⟩, fun q hq h => hafter q hq h.2, ?_⟩
      · by_contra hlt
        exact hkind q hq m hm (hn.rest m (Nat.lt_of_not_le hlt) hm.1)
      · rw [hmatch]
        exact congrArg (·, _) hlast
    · exact absurd heof hn.kind_ne
  · exact .inr ⟨fun p hp m h => hkind p hp m h
      (hnone m (pos_of_stands (nonempty p hp) h) h.1), hmatch⟩

/-- A letter in any case, the small letter alone, and the letter with another one behind it. -/
def units : List Addition :=
  [⟨Text.ofString "k", true, .times⟩, ⟨Text.ofString "k", false, .divide⟩,
    ⟨Text.ofString "kg", false, .mod⟩]

/-- At the sign for kelvin, which is three bytes, stands the letter in any case. -/
theorem matchAt_units : (∀ p ∈ units, p.text ≠ []) ∧ (∀ p ∈ units, p.kind ≠ .eof) ∧
    (ofAdditions units).matchAt (Text.ofString "3\u212ag") 1 = (.times, 3) ∧
      ∃ n, IsGreatest {m | ∃ p ∈ units, Stands p
        (Text.glyphs ((Text.ofString "3\u212ag").drop 1)) m} n ∧
        byteLength ((Text.glyphs ((Text.ofString "3\u212ag").drop 1)).take n) = 3 := by
  have hmatch : (ofAdditions units).matchAt (Text.ofString "3\u212ag") 1 = (.times, 3) := by
    decide +kernel
  refine ⟨by decide +kernel, by decide +kernel, hmatch, ?_⟩
  rcases matchAt_longest units (by decide +kernel) (by decide +kernel)
    (Text.ofString "3\u212ag") 1 with
    ⟨n, hn, -, p, -, -, -, -, h⟩ | ⟨-, h⟩
  · rw [hmatch] at h
    exact ⟨n, hn, (congrArg Prod.snd h).symm⟩
  · rw [hmatch] at h
    cases h

end Automaton

section Dictionary

open Automaton

variable (d : Dictionary)

/-- The search tree of a dictionary gives its kinds. -/
theorem kindAt_automaton (w : List Nat) : d.automaton.kindAt w = (d.kindOf? w).getD .eof := by
  have htree : d.automaton = d.reverse.foldl insert empty := by
    rw [List.foldl_reverse]
    rfl
  rw [htree, (foldl_insert_spec _).2, List.reverse_reverse, Dictionary.kindOf?]
  cases (d.find? (·.covers w)).map (·.kind) with
  | none => rfl
  | some kind => cases kind <;> rfl

theorem kindOf?_of_kindAt {w : List Nat} (h : d.automaton.kindAt w = .eof) :
    d.kindOf? w = none := by
  rw [kindAt_automaton] at h
  cases hkind : d.kindOf? w with
  | none => rfl
  | some kind =>
    rw [hkind] at h
    obtain ⟨-, hne⟩ := Option.filter_eq_some_iff.1 hkind
    exact absurd h (bne_iff_ne.1 hne)

theorem kindOf?_of_kindAt_ne {w : List Nat} (h : d.automaton.kindAt w ≠ .eof) :
    d.kindOf? w = some (d.automaton.kindAt w) := by
  rw [kindAt_automaton] at h ⊢
  cases hkind : d.kindOf? w with
  | none =>
    rw [hkind] at h
    exact absurd rfl h
  | some kind => rfl

/-- A search tree finds what the dictionary has as its longest string. -/
theorem matchText_eq (t : Text) : d.matchText t =
    match d.longest? t.glyphs with
    | some (kind, n) => (kind, byteLength (t.glyphs.take n))
    | none => (.eof, 0) := by
  have hnone : ∀ m, d.automaton.frontKind 0 t.glyphs m = .eof →
      d.kindOf? ((t.glyphs.map (·.code)).take m) = none := by
    intro m h
    rw [← List.map_take]
    exact kindOf?_of_kindAt d h
  rw [longest?_eq]
  rcases d.automaton.matchFrom_root t with ⟨n, hn, hmatch⟩ | ⟨hrest, hmatch⟩
  · rw [longestUpTo_of_none hn.le fun m hm hle => hnone m (hn.rest m hm hle)]
    obtain ⟨n, rfl⟩ := Nat.exists_eq_add_of_lt hn.pos
    have hkind : d.kindOf? ((t.glyphs.map (·.code)).take (0 + n + 1)) =
        some (d.automaton.frontKind 0 t.glyphs (0 + n + 1)) := by
      rw [← List.map_take]
      exact kindOf?_of_kindAt_ne d hn.kind_ne
    rw [Dictionary.longestUpTo, hkind]
    exact hmatch
  · rw [longestUpTo_of_none (Nat.zero_le _) fun m hm hle => hnone m (hrest m hm hle)]
    exact hmatch

end Dictionary

end Lexical

end Formulary
