import Mathlib.Data.List.Find
import Formulary.Proofs.Calendar.Units
import Formulary.Proofs.Build.Reading
import Formulary.Proofs.Build.Walk
import Formulary.Proofs.Library.Calls

/-!
# Dates written by a pattern

The pieces of a pattern are joined to a layout, which is scanned once more as a whole. `spell` is
this scan. A piece keeps its meaning unless the scan finds a field within a text, or one that starts
with a specifier and goes on behind it: a format that is `Clear` of both is written piece by piece
(`spell_clear`). Digits of a second are shown directly behind a point or comma only, by all the
specifiers that follow it.
-/

namespace Formulary.Calendar

open Text (byteChars ofByteChars ofString ofString_eq ofByteChars_append)

/-- A moment written by a scan of a layout: `skip` characters still belong to the last field. -/
def Moment.spell (t : Moment) : Nat → List Char → Text
  | _, [] => []
  | skip + 1, _ :: rest => t.spell skip rest
  | 0, c :: rest =>
    match fieldAt? (c :: rest) with
    | some (field, width) => ofString (field.write t) ++ t.spell (width - 1) rest
    | none => ofByteChars [c] ++ t.spell 0 rest

section Scan

variable {t : Moment} {c : Char} {cs rest : List Char} {field : Field}

theorem scanLayout_spell (t : Moment) (skip : Nat) (literal cs : List Char) :
    ((scanLayout skip literal cs).1.flatMap fun c =>
      ofByteChars c.literal ++ ofString (c.field.write t)) ++
      ofByteChars (scanLayout skip literal cs).2 = ofByteChars literal.reverse ++
        t.spell skip cs := by
  fun_induction scanLayout skip literal cs with
  | case1 => simp [Moment.spell]
  | case2 literal skip c rest ih => rw [ih, Moment.spell]
  | case3 literal c rest field width h chunks last hscan ih =>
    rw [hscan] at ih
    simp only [List.reverse_nil, ofByteChars, List.map_nil, List.nil_append] at ih
    simp only [Moment.spell, h, List.flatMap_cons, List.append_assoc]
    rw [← ih]
    rfl
  | case4 literal c rest h ih =>
    rw [ih, Moment.spell]
    simp only [h, List.reverse_cons, ofByteChars_append, List.append_assoc]

/-- A layout is written by its scan. -/
theorem format_eq (t : Moment) (layout : Text) : t.format layout = t.spell 0 layout.byteChars :=
  (scanLayout_spell t 0 [] layout.byteChars).trans (List.nil_append _)

theorem spell_skip (t : Moment) (cs rest : List Char) (n : Nat) :
    t.spell (cs.length + n) (cs ++ rest) = t.spell n rest := by
  induction cs with
  | nil => rw [List.length_nil, Nat.zero_add, List.nil_append]
  | cons c cs ih => rw [List.length_cons, Nat.add_right_comm, List.cons_append, Moment.spell, ih]

theorem spell_field (hne : cs ≠ []) (h : fieldAt? (cs ++ rest) = some (field, cs.length)) :
    t.spell 0 (cs ++ rest) = ofString (field.write t) ++ t.spell 0 rest := by
  obtain ⟨c, cs, rfl⟩ := List.exists_cons_of_ne_nil hne
  have hskip := spell_skip t cs rest 0
  rw [List.cons_append] at h ⊢
  simp only [Moment.spell, h, List.length_cons, Nat.add_sub_cancel]
  rw [← hskip, Nat.add_zero]

theorem spell_literal (h : fieldAt? (c :: rest) = none) :
    t.spell 0 (c :: rest) = ofByteChars [c] ++ t.spell 0 rest := by
  rw [Moment.spell]
  simp only [h]

end Scan

/-- Whether a fragment of a layout is a run of zeros, which are digits of a second behind a mark. -/
def fractional (fragment : String) : Bool := fragment.toList.all (· == '0')

/-- Whether a fixed spelling of a field fits the front of a layout. -/
def fits (cs : List Char) (f : String × Bool × Field) : Bool :=
  f.1.toList.isPrefixOf cs && !(f.2.1 && startsSmall (cs.drop f.1.length))

/-- Whether a fragment of a layout is read together with what stands behind it: the spelling of a
field starts with the fragment and goes on there, or is the fragment itself and forbids the small
letter that is next. So it is with `1` in front of `5`, `2` in front of `006`, offsets in front of
`:00`, and short names in front of small letters. -/
def joins (fragment rest : List Char) : Bool :=
  fixedFields.any fun f => fragment.isPrefixOf f.1.toList &&
    if f.1.length = fragment.length then f.2.1 && startsSmall rest
    else (f.1.toList.drop fragment.length).isPrefixOf rest

section Fragments

variable {cs fragment rest : List Char}

theorem isPrefixOf_append (as bs rest : List Char) :
    as.isPrefixOf (bs ++ rest) = (as.isPrefixOf bs || bs.isPrefixOf as &&
      (as.drop bs.length).isPrefixOf rest) := by
  induction as generalizing bs with
  | nil => rfl
  | cons a as ih =>
    cases bs with
    | nil => rfl
    | cons b bs =>
      rw [List.cons_append, List.isPrefixOf, List.isPrefixOf, List.isPrefixOf, ih, List.length_cons,
        List.drop_succ_cons]
      rcases eq_or_ne a b with rfl | hab
      · simp only [BEq.rfl, Bool.true_and]
      · simp only [beq_false_of_ne hab, beq_false_of_ne hab.symm, Bool.false_and, Bool.or_false]

theorem startsSmall_drop {n : Nat} (h : n < fragment.length) :
    startsSmall ((fragment ++ rest).drop n) = startsSmall (fragment.drop n) := by
  rw [List.drop_append_of_le_length (Nat.le_of_lt h), List.drop_eq_getElem_cons h]
  rfl

/-- A spelling fits a fragment if it fits the fragment with what stands behind it, unless both are
read together. -/
theorem fits_append (hjoins : joins fragment rest = false) {f : String × Bool × Field}
    (hf : f ∈ fixedFields) :
    fits (fragment ++ rest) f = fits fragment f := by
  have hapart := List.any_eq_false.1 hjoins f hf
  have hlength : f.1.toList.length = f.1.length := String.length_toList
  rw [fits, fits, isPrefixOf_append]
  rcases Nat.lt_trichotomy f.1.length fragment.length with hlt | heq | hgt
  · have hlonger : fragment.isPrefixOf f.1.toList = false := by
      rw [Bool.eq_false_iff, ne_eq, List.isPrefixOf_iff_prefix]
      intro h
      have hle := h.length_le
      omega
    rw [startsSmall_drop hlt, hlonger, Bool.false_and, Bool.or_false]
  · rw [if_pos heq] at hapart
    rw [List.drop_left' heq.symm, List.drop_eq_nil_of_le (Nat.le_of_eq heq.symm)]
    by_cases hsame : f.1.toList = fragment
    · have hsmall : (f.2.1 && startsSmall rest) = false := by simpa [hsame] using hapart
      have hnone : startsSmall [] = false := rfl
      rw [hsmall, hnone]
      simp [hsame]
    · have hback : f.1.toList.isPrefixOf fragment = false := by
        rw [Bool.eq_false_iff, ne_eq, List.isPrefixOf_iff_prefix]
        exact fun h => hsame (h.eq_of_length (hlength.trans heq))
      have hlonger : fragment.isPrefixOf f.1.toList = false := by
        rw [Bool.eq_false_iff, ne_eq, List.isPrefixOf_iff_prefix]
        exact fun h => hsame (h.eq_of_length (heq.symm.trans hlength.symm)).symm
      rw [hback, hlonger, Bool.false_and, Bool.or_false, Bool.false_and, Bool.false_and]
  · rw [if_neg (Nat.ne_of_gt hgt)] at hapart
    have hback : f.1.toList.isPrefixOf fragment = false := by
      rw [Bool.eq_false_iff, ne_eq, List.isPrefixOf_iff_prefix]
      intro h
      have hle := h.length_le
      omega
    rw [hback, Bool.eq_false_iff.2 hapart, Bool.or_false, Bool.false_and, Bool.false_and]

/-- The field at the front of a layout that does not start with an underscore. -/
theorem fieldAt?_of_find? (hunderscore : cs.head? ≠ some '_') {f : String × Bool × Field}
    (hfind : fixedFields.find? (fits cs) = some f) : fieldAt? cs = some (f.2.2, f.1.length) := by
  unfold fieldAt?
  split
  · exact absurd rfl hunderscore
  · have hfield : fixedFields.find? (fun f =>
        f.1.toList.isPrefixOf cs && !(f.2.1 && startsSmall (cs.drop f.1.length))) = some f := hfind
    rw [hfield]

/-- A fragment that spells a field is read as this field, unless it is read together with what
stands behind it. -/
theorem fieldAt?_append (hunderscore : fragment.head? ≠ some '_') (hne : fragment ≠ [])
    {f : String × Bool × Field}
    (hfind : fixedFields.find? (fits fragment) = some f) (hjoins : joins fragment rest = false) :
    fieldAt? (fragment ++ rest) = some (f.2.2, f.1.length) := by
  refine fieldAt?_of_find? ?_ ((List.find?_congr fun f hf => fits_append hjoins hf).trans hfind)
  rwa [List.head?_append_of_ne_nil _ hne]

end Fragments

/-- Whether no field starts within a text, given what stands behind it. -/
def silent : List Char → List Char → Bool
  | [], _ => true
  | c :: cs, rest => (fieldAt? (c :: (cs ++ rest))).isNone && silent cs rest

theorem spell_silent {t : Moment} {cs rest : List Char} (h : silent cs rest = true) :
    t.spell 0 (cs ++ rest) = ofByteChars cs ++ t.spell 0 rest := by
  induction cs with
  | nil => rfl
  | cons c cs ih =>
    rw [silent, Bool.and_eq_true, Option.isNone_iff_eq_none] at h
    rw [List.cons_append, spell_literal h.1, ih h.2]
    rfl

def isMark (c : Char) : Bool := c == '.' || c == ','

/-- The digits of a fraction that were shown after a text, `none` if it does not end with a mark. -/
def behind (digits : Option Nat) (body : List Char) : Option Nat :=
  match body.getLast? with
  | some c => if isMark c then some 0 else none
  | none => digits

def Moment.digits (t : Moment) : List Char := (Number.padded 9 t.nanos).toList

namespace Piece

def next (digits : Option Nat) : Piece → Option Nat
  | specifier _ fragment => if fractional fragment then digits.map (· + fragment.length) else none
  | quoted body => behind digits body
  | other c => behind digits [c]

/-- What a piece shows of a moment: a text as it stands, and a specifier what it shows on its own,
or the next digits of a second in a fraction. -/
def shown (t : Moment) (digits : Option Nat) : Piece → Text
  | specifier _ fragment =>
    match digits, fractional fragment with
    | some n, true => ofString (String.ofList ((t.digits.drop n).take fragment.length))
    | _, _ => t.format (ofString fragment)
  | quoted body => ofByteChars body
  | other c => ofByteChars [c]

/-- The number of digits of a second that pieces at the front ask for. -/
def run : List Piece → Nat
  | specifier _ fragment :: ps => if fractional fragment then fragment.length + run ps else 0
  | quoted [] :: ps => run ps
  | _ => 0

/-- Whether a text is read as it stands, given the pieces behind it: no field starts within it,
except with a mark at its end if digits of a second follow, and nothing but digits of a second
follow. -/
def plain : List Char → List Piece → Bool
  | [], _ => true
  | c :: cs, ps =>
    (if cs.isEmpty && isMark c && 0 < run ps then
      !((ps.flatMap layout).drop (run ps)).head?.any Char.isDigit
      else (fieldAt? (c :: (cs ++ ps.flatMap layout))).isNone) && plain cs ps

/-- Whether a piece keeps its meaning in front of others. -/
def keeps (digits : Option Nat) (ps : List Piece) : Piece → Bool
  | specifier _ fragment =>
    if fractional fragment then digits.isSome || silent fragment.toList (ps.flatMap layout)
    else !joins fragment.toList (ps.flatMap layout)
  | quoted body => plain body ps
  | other c => plain [c] ps

def showAll (t : Moment) : Option Nat → List Piece → Text
  | _, [] => []
  | digits, p :: ps => p.shown t digits ++ showAll t (p.next digits) ps

/-- Every piece keeps its meaning in front of the pieces behind it. -/
def clear : Option Nat → List Piece → Bool
  | _, [] => true
  | digits, p :: ps => p.keeps digits ps && clear (p.next digits) ps

end Piece

section Pieces

open Piece

variable {t : Moment} {ps : List Piece} {name fragment : String}

theorem fractional_eq {fragment : String} (h : fractional fragment = true) :
    fragment.toList = List.replicate fragment.length '0' := by
  rw [fractional, List.all_eq_true] at h
  exact List.eq_replicate_iff.2 ⟨rfl, fun c hc => eq_of_beq (h c hc)⟩

/-- The layout of pieces starts with the zeros of the digits that they ask for. -/
theorem layout_run (ps : List Piece) : ∃ rest,
    ps.flatMap layout = List.replicate (run ps) '0' ++ rest := by
  fun_induction run ps with
  | case1 name fragment ps h ih =>
    obtain ⟨rest, hrest⟩ := ih
    refine ⟨rest, ?_⟩
    rw [List.flatMap_cons, layout, fractional_eq h, hrest, List.replicate_add, List.append_assoc]
  | case2 name fragment ps h => exact ⟨_, rfl⟩
  | case3 ps ih => exact ih
  | case4 ps => exact ⟨_, rfl⟩

/-- A mark, zeros and no digit are a fraction. -/
theorem fieldAt?_mark {c : Char} (hc : isMark c = true) {n : Nat} {rest : List Char}
    (hrest : rest.head?.any Char.isDigit = false) :
    fieldAt? (c :: (List.replicate (n + 1) '0' ++ rest)) =
      some (.fraction c false (n + 1), n + 2) := by
  have hfraction : fieldAt? (c :: (List.replicate (n + 1) '0' ++ rest)) =
      fractionAt? (c :: (List.replicate (n + 1) '0' ++ rest)) := by
    rw [isMark, Bool.or_eq_true, beq_iff_eq, beq_iff_eq] at hc
    rcases hc with rfl | rfl <;> rfl
  have hmark : (c == '.' || c == ',') = true := hc
  have hzeros : (List.replicate n '0' ++ rest).takeWhile (· == '0') = List.replicate n '0' := by
    rw [List.takeWhile_append_of_pos fun c hc => beq_iff_eq.2 (List.eq_of_mem_replicate hc)]
    cases rest with
    | nil => simp
    | cons d rest =>
      have hd : (d == '0') = false := by
        rw [beq_eq_false_iff_ne]
        rintro rfl
        cases show true = false from hrest
      rw [List.takeWhile_cons, hd]
      exact List.append_nil _
  have hdrop : (List.replicate n '0' ++ rest).drop n = rest := List.drop_left' List.length_replicate
  rw [hfraction, List.replicate_succ, List.cons_append, fractionAt?]
  simp only [hmark, hzeros, List.length_replicate, hdrop, beq_self_eq_true, Bool.true_or,
    Bool.and_self, if_true]
  cases rest with
  | nil => rfl
  | cons d rest =>
    have hd : d.isDigit = false := hrest
    simp only [hd]
    rfl

theorem ofString_ofList_append (cs ds : List Char) :
    ofString (String.ofList (cs ++ ds)) = ofString (String.ofList cs) ++
      ofString (String.ofList ds) := by
  simp only [ofString_eq, String.toList_ofList, List.flatMap_append]

theorem ofString_mark {c : Char} (hc : isMark c = true) (cs : List Char) :
    ofString (String.ofList (c :: cs)) = ofByteChars [c] ++ ofString (String.ofList cs) := by
  have hencode : Text.encode c.toNat = ofByteChars [c] := by
    rw [isMark, Bool.or_eq_true, beq_iff_eq, beq_iff_eq] at hc
    rcases hc with rfl | rfl <;> rfl
  rw [ofString_eq, ofString_eq, String.toList_ofList, String.toList_ofList, List.flatMap_cons,
    hencode]

/-- The digits that a mark shows at once for all the pieces behind it. -/
def pending (t : Moment) (ps : List Piece) : Option Nat → Text
  | some n => ofString (String.ofList ((t.digits.drop n).take (run ps)))
  | none => []

/-- The number of characters that are then behind the scan. -/
def scanned (ps : List Piece) : Option Nat → Nat
  | some _ => run ps
  | none => 0

theorem pending_of_run {digits : Option Nat} (h : run ps = 0) : pending t ps digits = [] := by
  cases digits with
  | none => rfl
  | some n =>
    rw [pending, h, List.take_zero]
    rfl

theorem scanned_of_run {digits : Option Nat} (h : run ps = 0) : scanned ps digits = 0 := by
  cases digits with
  | none => rfl
  | some n => exact h

/-- A text that is read as it stands, up to the digits that a mark at its end shows. -/
theorem spell_plain {cs : List Char} (digits : Option Nat) (hne : cs ≠ [])
    (h : plain cs ps = true) :
    t.spell 0 (cs ++ ps.flatMap layout) =
      ofByteChars cs ++ (pending t ps (behind digits cs) ++
        t.spell (scanned ps (behind digits cs)) (ps.flatMap layout)) := by
  induction cs with
  | nil => exact absurd rfl hne
  | cons c cs ih =>
    rw [plain, Bool.and_eq_true] at h
    obtain ⟨hc, hcs⟩ := h
    cases cs with
    | cons d cs =>
      rw [List.cons_append, spell_literal (by simpa using hc), ih (List.cons_ne_nil _ _) hcs]
      rfl
    | nil =>
      rw [List.singleton_append]
      by_cases hmark : isMark c = true
      · by_cases hrun : run ps = 0
        · rw [pending_of_run hrun, scanned_of_run hrun, spell_literal (by simpa [hrun] using hc)]
          rfl
        · obtain ⟨n, hn⟩ := Nat.exists_eq_succ_of_ne_zero hrun
          obtain ⟨rest, hrest⟩ := layout_run ps
          have hdigit : rest.head?.any Char.isDigit = false := by
            rw [if_pos (by simp [hmark, hn]), hrest, List.drop_left' List.length_replicate] at hc
            simpa using hc
          have hwrite : ofString ((Field.fraction c false (n + 1)).write t) =
              ofByteChars [c] ++ ofString (String.ofList ((t.digits.drop 0).take (n + 1))) :=
                ofString_mark hmark _
          simp only [behind, List.getLast?_singleton, hmark, if_true, pending, scanned, hn,
            Nat.succ_eq_add_one]
          rw [hrest, hn, Moment.spell]
          simp only [fieldAt?_mark hmark hdigit, hwrite, List.append_assoc]
          rfl
      · rw [spell_literal (by simpa [hmark] using hc)]
        simp [behind, hmark, pending, scanned]

structure Stands (name fragment : String) : Prop where
  layout : layoutOf (ofString name) = .ok (ofString fragment)
  bytes : byteChars (ofString fragment) = fragment.toList
  ne_nil : fragment.toList ≠ []
  silent : fractional fragment = true → silent fragment.toList [] = true
  reads : fractional fragment = false → ∃ field, ∀ rest, joins fragment.toList rest = false →
    fieldAt? (fragment.toList ++ rest) = some (field, fragment.toList.length)
  joins : joins fragment.toList [] = false

theorem stands_of_mem (h : (name, fragment) ∈ specifiers) : Stands name fragment := by
  have hall : ∀ s ∈ specifiers, layoutOf (ofString s.1) = .ok (ofString s.2) ∧
    byteChars (ofString s.2) = s.2.toList ∧
      s.2.toList ≠ [] ∧ s.2.toList.head? ≠ some '_' ∧ joins s.2.toList [] = false ∧
      if fractional s.2 then silent s.2.toList [] = true
      else (fixedFields.find? (fits s.2.toList)).any (·.1.length == s.2.toList.length) = true := by
        decide +kernel
  obtain ⟨hlayout, hbytes, hne, hunderscore, hjoins, hread⟩ := hall (name, fragment) h
  refine ⟨hlayout, hbytes, hne, fun hfraction => ?_, fun hfraction => ?_, hjoins⟩
  · rwa [if_pos hfraction] at hread
  · rw [hfraction, if_neg Bool.false_ne_true] at hread
    obtain ⟨f, hfind, hlength⟩ := (Option.any_eq_true _ _).1 hread
    exact ⟨f.2.2, fun rest hrest => (fieldAt?_append hunderscore hne hfind hrest).trans
      (by rw [eq_of_beq hlength])⟩

/-- A specifier that is read on its own shows what it shows on its own. -/
theorem spell_fragment {rest : List Char} (h : (name, fragment) ∈ specifiers)
    (hfraction : fractional fragment = false) (hjoins : joins fragment.toList rest = false) :
    t.spell 0 (fragment.toList ++ rest) = t.format (ofString fragment) ++ t.spell 0 rest := by
  have stands := stands_of_mem h
  obtain ⟨field, hfield⟩ := stands.reads hfraction
  have halone := spell_field (t := t) stands.ne_nil (hfield [] stands.joins)
  rw [List.append_nil, Moment.spell, List.append_nil] at halone
  rw [spell_field stands.ne_nil (hfield rest hjoins), format_eq, stands.bytes, halone]

/-- So does a specifier of digits of a second outside a fraction: it shows zeros. -/
theorem spell_zeros {rest : List Char} (h : (name, fragment) ∈ specifiers)
    (hfraction : fractional fragment = true) (hsilent : silent fragment.toList rest = true) :
    t.spell 0 (fragment.toList ++ rest) = t.format (ofString fragment) ++ t.spell 0 rest := by
  have stands := stands_of_mem h
  have halone := spell_silent (t := t) (stands.silent hfraction)
  rw [List.append_nil, Moment.spell, List.append_nil] at halone
  rw [spell_silent hsilent, format_eq, stands.bytes, halone]

/-- Pieces that keep their meaning are written one after another. -/
theorem spell_clear (hps : ∀ name fragment, .specifier name fragment ∈ ps →
    (name, fragment) ∈ specifiers)
    {digits : Option Nat} (h : clear digits ps = true) :
    pending t ps digits ++ t.spell (scanned ps digits) (ps.flatMap layout) =
      showAll t digits ps := by
  induction ps generalizing digits with
  | nil => rw [pending_of_run rfl, scanned_of_run rfl]; rfl
  | cons p ps ih =>
    rw [clear, Bool.and_eq_true] at h
    have hrest := ih (fun name fragment hmem => hps name fragment (List.mem_cons_of_mem _ hmem)) h.2
    rw [showAll, ← hrest, List.flatMap_cons]
    have hkeeps := h.1
    cases p with
    | quoted body =>
      cases body with
      | nil => rfl
      | cons c body =>
        rw [pending_of_run rfl, scanned_of_run rfl]
        exact spell_plain digits (List.cons_ne_nil _ _) hkeeps
    | other c =>
      rw [pending_of_run rfl, scanned_of_run rfl]
      exact spell_plain digits (List.cons_ne_nil _ _) hkeeps
    | specifier name fragment =>
      have hmem := hps name fragment List.mem_cons_self
      cases hfraction : fractional fragment with
      | false =>
        have hrun : run (.specifier name fragment :: ps) = 0 := by rw [run, hfraction]; rfl
        have hjoins : joins fragment.toList (ps.flatMap layout) = false := by
          simpa [keeps, hfraction] using hkeeps
        rw [pending_of_run hrun, scanned_of_run hrun, List.nil_append, layout,
          spell_fragment hmem hfraction hjoins]
        cases digits <;> simp [shown, next, hfraction, pending, scanned]
      | true =>
        cases digits with
        | none =>
          have hsilent : silent fragment.toList (ps.flatMap layout) = true := by
            simpa [keeps, hfraction] using hkeeps
          simp only [pending, scanned, List.nil_append, layout, next, hfraction, shown, if_true,
            Option.map_none]
          exact spell_zeros hmem hfraction hsilent
        | some n =>
          have hrun : run (.specifier name fragment :: ps) = fragment.length + run ps := by
            rw [run, hfraction]; rfl
          have hskip : t.spell (fragment.length + run ps) (fragment.toList ++ ps.flatMap layout) =
              t.spell (run ps) (ps.flatMap layout) := spell_skip t fragment.toList _ _
          simp only [pending, scanned, hrun, layout, next, hfraction, shown, if_true,
            Option.map_some, hskip]
          rw [List.take_add, List.drop_drop, ofString_ofList_append, List.append_assoc]

/-- Pieces are specifiers of the list and texts of the pattern. -/
def Piece.Of (cs : List Char) : Piece → Prop
  | specifier name fragment => (name, fragment) ∈ specifiers
  | quoted body => ∀ c ∈ body, c ∈ cs
  | other c => c ∈ cs

theorem Piece.Of.cons {c : Char} {cs : List Char} {p : Piece} (h : p.Of cs) : p.Of (c :: cs) := by
  cases p with
  | specifier name fragment => exact h
  | quoted body => exact fun d hd => List.mem_cons_of_mem _ (h d hd)
  | other d => exact List.mem_cons_of_mem _ h

theorem of_piecesFrom {skip : Nat} {cs : List Char} (h : piecesFrom skip cs = .ok ps) :
    ∀ p ∈ ps, p.Of cs := by
  fun_induction piecesFrom skip cs generalizing ps with
  | case1 =>
    cases h
    exact fun p hp => nomatch hp
  | case2 skip c rest ih => exact fun p hp => (ih h p hp).cons
  | case3 => cases h
  | case4 c rest hquote body hbody =>
    rename_i ih
    obtain ⟨qs, hqs, rfl⟩ := map_eq_ok.1 h
    refine List.forall_mem_cons.2 ⟨fun d hd => ?_, fun p hp => (ih hqs p hp).cons⟩
    exact List.mem_cons_of_mem _ ((List.takeWhile_sublist _).subset hd)
  | case5 c rest hc hletter name fragment hfound ih =>
    obtain ⟨qs, hqs, rfl⟩ := map_eq_ok.1 h
    exact List.forall_mem_cons.2 ⟨List.mem_of_find?_eq_some hfound, fun p hp => (ih hqs p hp).cons⟩
  | case6 => cases h
  | case7 c rest hc hletter ih =>
    obtain ⟨qs, hqs, rfl⟩ := map_eq_ok.1 h
    exact List.forall_mem_cons.2 ⟨List.mem_cons_self, fun p hp => (ih hqs p hp).cons⟩

theorem toNat_byteChars {text : Text} {c : Char} (h : c ∈ byteChars text) : c.toNat < 256 := by
  obtain ⟨b, -, rfl⟩ := List.mem_map.1 h
  have hb := b.toNat_lt
  rw [Char.ofNat, dif_pos (.inl (by omega))]
  exact hb

/-- The layout of a pattern is made of bytes. -/
theorem byteChars_layout {pattern : Text} (h : pieces pattern = .ok ps) :
    byteChars (ofByteChars (ps.flatMap layout)) = ps.flatMap layout := by
  have hbyte : ∀ c ∈ ps.flatMap layout, c.toNat < 256 := by
    intro c hc
    obtain ⟨p, hp, hcp⟩ := List.mem_flatMap.1 hc
    have hof := of_piecesFrom h p hp
    cases p with
    | specifier name fragment =>
      have hmem : c ∈ byteChars (ofString fragment) := by
        rw [(stands_of_mem hof).bytes]
        exact hcp
      exact toNat_byteChars hmem
    | quoted body => exact toNat_byteChars (hof c hcp)
    | other d =>
      obtain rfl := List.mem_singleton.1 hcp
      exact toNat_byteChars hof
  exact Text.byteChars_ofByteChars_of_lt hbyte

end Pieces

end Formulary.Calendar

namespace Formulary.Library.Dates

open Calendar

variable {pattern layout : Text} {ps : List Piece}

theorem gives_format (now t : Moment) (h : layoutOf pattern = .ok layout) :
    (library now).Gives "Format" [.dateTime t, .string pattern] (.string (t.format layout)) := by
  refine (gives_fallible_iff (rfl : (library now).function? "Format" 2 = some (fallible _ _ _))).2
    ?_
  have hpattern : textArg [.dateTime t, .string pattern] 1 = pattern := rfl
  rw [hpattern, h]
  rfl

/-- A pattern whose pieces keep their meaning shows a moment piece by piece: texts as they stand,
and specifiers what they show on their own, except that behind a point or comma those of a fraction
show the digits of the second, each the next ones. -/
theorem formats_composed (now t : Moment) (h : pieces pattern = .ok ps)
    (hclear : Piece.clear none ps = true) :
    (library now).Gives "Format" [.dateTime t, .string pattern]
      (.string (Piece.showAll t none ps)) ∧
      ∀ name fragment, .specifier name fragment ∈ ps →
        (library now).Gives "Format" [.dateTime t, .string (Text.ofString name)]
          (.string (t.format (Text.ofString fragment))) := by
  have hps : ∀ name fragment, .specifier name fragment ∈ ps → (name, fragment) ∈ specifiers :=
    fun name fragment hmem => of_piecesFrom h _ hmem
  have hlayout : layoutOf pattern = .ok (Text.ofByteChars (ps.flatMap Piece.layout)) := by
    rw [layoutOf, h]
    rfl
  have hformat : t.format (Text.ofByteChars (ps.flatMap Piece.layout)) =
      Piece.showAll t none ps := by
    rw [format_eq, byteChars_layout h]
    exact spell_clear hps hclear
  refine ⟨hformat ▸ gives_format now t hlayout, fun name fragment hmem => ?_⟩
  exact gives_format now t (stands_of_mem (hps name fragment hmem)).layout

/-- `dd/MM/yyyy 'at' HH:mm:ss.fff` -/
def stamp : List Piece :=
  [.specifier "dd" "02", .other '/', .specifier "MM" "01", .other '/',
    .specifier "yyyy" "2006", .other ' ', .quoted ['a', 't'], .other ' ', .specifier "HH" "15",
    .other ':', .specifier "mm" "04", .other ':', .specifier "ss" "05", .other '.',
    .specifier "fff" "000"]

theorem formats_composed_stamp :
    pieces (Text.ofString "dd/MM/yyyy 'at' HH:mm:ss.fff") = .ok stamp ∧
      Piece.clear none stamp = true ∧
      (library millennium).Gives "Format"
        [.dateTime (.ofFields 2024 3 15 13 45 30 123456789 .utc),
          .string (Text.ofString "dd/MM/yyyy 'at' HH:mm:ss.fff")]
        (.string (Text.ofString "15/03/2024 at 13:45:30.123")) := by
  have hstamp : pieces (Text.ofString "dd/MM/yyyy 'at' HH:mm:ss.fff") = .ok stamp ∧
    Piece.clear none stamp = true ∧
      Piece.showAll (.ofFields 2024 3 15 13 45 30 123456789 .utc) none stamp =
        Text.ofString "15/03/2024 at 13:45:30.123" := by decide +kernel
  obtain ⟨hpieces, hclear, hshown⟩ := hstamp
  have hgives :=
    (formats_composed millennium (.ofFields 2024 3 15 13 45 30 123456789 .utc) hpieces hclear).1
  rw [hshown] at hgives
  exact ⟨hpieces, hclear, hgives⟩

/-- `'Q1' yyyy` in March shows `Q3`: the digit in quotes is read as the number of the month. -/
theorem format_rereads_quoted :
    pieces (Text.ofString "'Q1' yyyy") = .ok [.quoted ['Q', '1'], .other ' ',
      .specifier "yyyy" "2006"] ∧
      (library millennium).Gives "Format" [.dateTime (.ofFields 2024 3 15 0 0 0 0 .utc),
        .string (Text.ofString "yyyy")]
        (.string (Text.ofString "2024")) ∧
      (library millennium).Gives "Format"
        [.dateTime (.ofFields 2024 3 15 0 0 0 0 .utc), .string (Text.ofString "'Q1' yyyy")]
        (.string (Text.ofString "Q3 2024")) := by
  have hquarter : pieces (Text.ofString "'Q1' yyyy") =
    .ok [.quoted ['Q', '1'], .other ' ', .specifier "yyyy" "2006"] ∧
      layoutOf (Text.ofString "'Q1' yyyy") = .ok (Text.ofString "Q1 2006") ∧
      Moment.format (.ofFields 2024 3 15 0 0 0 0 .utc) (Text.ofString "2006") =
        Text.ofString "2024" ∧
      Moment.format (.ofFields 2024 3 15 0 0 0 0 .utc) (Text.ofString "Q1 2006") =
        Text.ofString "Q3 2024" := by
    decide +kernel
  obtain ⟨hpieces, hlayout, hyear, hwhole⟩ := hquarter
  have halone := gives_format millennium (.ofFields 2024 3 15 0 0 0 0 .utc)
    (stands_of_mem (show ("yyyy", "2006") ∈ specifiers from List.mem_cons_self)).layout
  have hgives := gives_format millennium (.ofFields 2024 3 15 0 0 0 0 .utc) hlayout
  rw [hyear] at halone
  rw [hwhole] at hgives
  exact ⟨hpieces, halone, hgives⟩

end Formulary.Library.Dates
