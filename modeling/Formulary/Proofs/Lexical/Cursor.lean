import Formulary.Proofs.Lexical.Readings

/-!
# The cursor of a lexer and the lexemes of a text

However the scanners leave the cursor, the next token starts between two characters and is the
longest at its place. So asking for one token after another gives the lexemes of the text
(`read_eq`). The place of a token is found by the starts of the lines and by the offset that was
asked for before, and is what a count of all characters gives (`Cursor.lineColumn_spec`): both
offsets are between two characters, so that the characters between them can be counted on their own.
-/

namespace Formulary

open Text (Glyph lastLine)

namespace Text

theorem lastLine_cons_of_notMem {b : UInt8} {u : Text} (hb : b ≠ 0x0A) (hu : 0x0A ∉ u) :
    lastLine (b :: u) = b :: u := by
  refine List.rtakeWhile_eq_self_iff.2 fun x hx => ?_
  rcases List.mem_cons.1 hx with rfl | hx
  · simpa using hb
  · simpa using fun heq : x = 0x0A => hu (heq ▸ hx)

theorem lastLine_cons_break (u : Text) : lastLine (0x0A :: u) = lastLine u := by
  by_cases hu : 0x0A ∈ u
  · exact lastLine_append_of_mem [0x0A] hu
  · have hother : ∀ x ∈ u, x ≠ (0x0A : UInt8) := fun x hx heq => hu (heq ▸ hx)
    have happend : lastLine ([0x0A] ++ u) = lastLine [0x0A] ++ u := lastLine_append hother
    have hself : lastLine ([] ++ u) = lastLine [] ++ u := lastLine_append hother
    rw [List.nil_append] at hself
    rw [← List.singleton_append, happend, hself]
    rfl

end Text

namespace Lexical

theorem lt_of_mem_lineStartsFrom {text : Text} {i x : Nat}
    (hx : x ∈ lineStartsFrom i text) : i < x := by
  induction text generalizing i with
  | nil => cases hx
  | cons b text ih =>
    rw [lineStartsFrom] at hx
    split at hx
    · rcases List.mem_cons.1 hx with rfl | hx
      · exact Nat.lt_succ_self i
      · exact Nat.lt_of_succ_lt (ih hx)
    · exact Nat.lt_of_succ_lt (ih hx)

/-- The line of an offset begins behind as many line breaks as stand before it, and all others begin
before that or behind the offset. -/
theorem lineStarts_spec (text : Text) (i n : Nat) (hn : n ≤ text.length) :
    (i :: lineStartsFrom i text)[(text.take n).count 0x0A]? =
      some (i + n - (lastLine (text.take n)).length) ∧
      ∀ j x, (i :: lineStartsFrom i text)[j]? = some x →
        (i + n < x ↔ (text.take n).count 0x0A < j) := by
  induction text generalizing i n with
  | nil =>
    obtain rfl : n = 0 := Nat.le_zero.1 hn
    refine ⟨rfl, fun j x hx => ?_⟩
    cases j with
    | zero =>
      cases hx
      simp
    | succ j => simp [lineStartsFrom] at hx
  | cons b text ih =>
    cases n with
    | zero =>
      refine ⟨rfl, fun j x hx => ?_⟩
      cases j with
      | zero =>
        cases hx
        simp
      | succ j =>
        rw [List.getElem?_cons_succ] at hx
        simp [lt_of_mem_lineStartsFrom (List.mem_of_getElem? hx)]
    | succ n =>
      obtain ⟨hstart, hothers⟩ := ih (i + 1) n (Nat.le_of_succ_le_succ hn)
      have hsum : i + (n + 1) = i + 1 + n := by omega
      rw [List.take_succ_cons, hsum]
      by_cases hb : b = 0x0A
      · subst hb
        rw [lineStartsFrom, if_pos (beq_self_eq_true _), Text.lastLine_cons_break,
          List.count_cons_self, List.getElem?_cons_succ]
        refine ⟨hstart, fun j x hx => ?_⟩
        cases j with
        | zero =>
          cases hx
          omega
        | succ j =>
          rw [List.getElem?_cons_succ] at hx
          rw [hothers j x hx]
          omega
      · have hcount : (b :: text.take n).count 0x0A = (text.take n).count 0x0A :=
          List.count_cons_of_ne hb
        rw [lineStartsFrom, if_neg (by simpa using hb), hcount]
        refine ⟨?_, fun j x hx => ?_⟩
        · by_cases hmem : 0x0A ∈ text.take n
          · obtain ⟨k, hk⟩ := Nat.exists_eq_add_of_lt (List.count_pos_iff.2 hmem)
            rw [hk, Nat.zero_add, List.getElem?_cons_succ] at hstart ⊢
            rw [← List.singleton_append, Text.lastLine_append_of_mem _ hmem]
            exact hstart
          · rw [Text.lastLine_cons_of_notMem hb hmem, List.count_eq_zero.2 hmem, List.length_cons,
              List.length_take, Nat.min_eq_left (Nat.le_of_succ_le_succ hn)]
            simp
            omega
        · cases j with
          | zero =>
            cases hx
            omega
          | succ j =>
            rw [List.getElem?_cons_succ] at hx
            exact hothers (j + 1) x (by rw [List.getElem?_cons_succ]; exact hx)

/-- The search finds the line of an offset, counted from zero, and where it begins. -/
theorem search_spec (text : Text) {n : Nat} (hn : n ≤ text.length) :
    searchBetween (fun i => (0 :: lineStartsFrom 0 text)[i]?.any (n < ·)) 0
      (0 :: lineStartsFrom 0 text).length - 1 =
      (text.take n).count 0x0A := by
  obtain ⟨hstart, hothers⟩ := lineStarts_spec text 0 n hn
  generalize 0 :: lineStartsFrom 0 text = starts at hstart hothers ⊢
  generalize (text.take n).count 0x0A = k at hstart hothers ⊢
  rw [Nat.zero_add] at hothers
  have htest : ∀ i, i < starts.length → (starts[i]?.any (n < ·) = true ↔ k < i) := by
    intro i hi
    rw [List.getElem?_eq_getElem hi, Option.any_some, decide_eq_true_iff]
    exact hothers i _ (List.getElem?_eq_getElem hi)
  have hk : k < starts.length := (List.getElem?_eq_some_iff.1 hstart).1
  have hstays : ∀ i j, i ≤ j → j < starts.length → starts[i]?.any (n < ·) = true →
      starts[j]?.any (n < ·) = true :=
    fun i j hij hj hi =>
      (htest j hj).2 (Nat.lt_of_lt_of_le ((htest i (Nat.lt_of_le_of_lt hij hj)).1 hi) hij)
  obtain ⟨-, hle, hbelow, habove⟩ := searchBetween_spec (Nat.zero_le starts.length) hstays
  generalize searchBetween (fun i => starts[i]?.any (n < ·)) 0 starts.length =
    r at hle hbelow habove ⊢
  have hlow : k < r := by
    by_contra hnot
    exact absurd ((htest k hk).1 (habove k (Nat.le_of_not_lt hnot) hk)) (Nat.lt_irrefl k)
  have hhigh : r ≤ k + 1 := by
    by_contra hnot
    have hfalse := hbelow (k + 1) (Nat.zero_le _) (Nat.lt_of_not_le hnot)
    have htrue := (htest (k + 1) (by omega)).2 (Nat.lt_succ_self k)
    rw [htrue] at hfalse
    cases hfalse
  omega

/-- The place behind some characters of a text. -/
abbrev placeOf (a : List Glyph) : Place := ({} : Place).afterAll a

def Problem.ofReport (e : Nat × Place) : Problem := .stray e.1 e.2

namespace Cursor

variable {l : Lexer} {text : Text} {c : Cursor} {a b : List Glyph}

structure Serves (l : Lexer) (text : Text) (c : Cursor) : Prop where
  automaton : c.automaton = l.dictionary.automaton
  options : c.options = l.options
  input : c.input = text
  lineStarts : c.lineStarts = 0 :: lineStartsFrom 0 text
  marked : ∃ m, m <+: text.glyphs ∧ placeOf m = ⟨c.markPos, c.markLine + 1, c.markColumn⟩

theorem drop_lineStart {n : Nat} (hn : n ≤ text.length) :
    (text.drop (n - (lastLine (text.take n)).length)).take
      (n - (n - (lastLine (text.take n)).length)) =
      lastLine (text.take n) := by
  obtain ⟨t, ht⟩ := List.rtakeWhile_suffix (· != 0x0A) (text.take n)
  have hlength := congrArg List.length ht
  rw [List.length_append, List.length_take, Nat.min_eq_left hn] at hlength
  have hsplit : text = t ++ (lastLine (text.take n) ++ text.drop n) := by
    rw [← List.append_assoc, lastLine, ht, List.take_append_drop]
  have hstart : n - (lastLine (text.take n)).length = t.length := by
    rw [lastLine]
    omega
  have hstop : n - t.length = (lastLine (text.take n)).length := by
    rw [lastLine]
    omega
  rw [hstart, hstop]
  generalize lastLine (text.take n) = line at hsplit ⊢
  generalize text.drop n = rest at hsplit
  rw [hsplit, List.drop_left, List.take_left]

/-- The characters up to one offset are among those up to a later one. -/
theorem exists_append_of_offset_le {m : List Glyph} (hm : m <+: text.glyphs)
    (ha : a <+: text.glyphs)
    (hle : (placeOf m).offset ≤ (placeOf a).offset) : ∃ x, a = m ++ x := by
  rcases List.prefix_or_prefix_of_prefix hm ha with ⟨x, rfl⟩ | ⟨x, rfl⟩
  · exact ⟨x, rfl⟩
  · cases x with
    | nil => exact ⟨[], by simp⟩
    | cons g x =>
      have hg : g.bytes ≠ [] := Text.glyphs_bytes_ne_nil g (hm.subset (by simp))
      rw [placeOf, Place.afterAll_append] at hle
      exact absurd hle (Nat.not_le.2 (Place.offset_lt_afterAll _ hg x))

/-- The place of an offset between two characters is that of all characters before it. -/
theorem lineColumn_spec (hc : c.Serves l text) (ha : a <+: text.glyphs) :
    (c.lineColumn (placeOf a).offset).1 = placeOf a ∧
      (c.lineColumn (placeOf a).offset).2.Serves l text := by
  obtain ⟨b, hglyphs⟩ := ha
  have hcounted := counted_afterAll hglyphs.symm
  obtain ⟨m, hm, hmark⟩ := hc.marked
  have hplace : (c.lineColumn (placeOf a).offset).1 = placeOf a := by
    have hsearch := search_spec text hcounted.within
    have hline : (placeOf a).line = (text.take (placeOf a).offset).count 0x0A + 1 := by
      rw [hcounted.line, Nat.add_comm]
    rw [lineColumn, hc.lineStarts, hsearch]
    dsimp only
    split
    · rename_i hsame
      rw [Bool.and_eq_true, beq_iff_eq, decide_eq_true_iff] at hsame
      have hoffset : (placeOf m).offset = c.markPos := congrArg Place.offset hmark
      obtain ⟨x, rfl⟩ := exists_append_of_offset_le hm ⟨b, hglyphs⟩ (hoffset ▸ hsame.2)
      have hplaces : placeOf (m ++ x) = (placeOf m).afterAll x := Place.afterAll_append _ m x
      have hbytes : (placeOf (m ++ x)).offset - c.markPos = (x.flatMap (·.bytes)).length := by
        rw [← hoffset, hplaces, Place.offset_afterAll, Nat.add_sub_cancel_left]
      have hsplit : text.glyphs = m ++ (x ++ b) := by rw [← hglyphs, List.append_assoc]
      have hsameLine : ((placeOf m).afterAll x).line = (placeOf m).line := by
        rw [← hplaces, hline, hmark, hsame.1]
      have hcolumn : (placeOf (m ++ x)).column = c.markColumn + x.length := by
        rw [hplaces, Place.column_afterAll hsameLine, hmark]
      have hslice : (text.drop c.markPos).take (x.flatMap (·.bytes)).length =
          x.flatMap (·.bytes) := by
        rw [← hoffset, offset_start]
        exact slice_eq hsplit
      rw [hbytes, hc.input, hslice, Text.characterCount, Text.glyphs_between hsplit,
        ← hcolumn, ← hline]
    · rw [(lineStarts_spec text 0 _ hcounted.within).1, Option.getD_some, Nat.zero_add, hc.input,
        drop_lineStart hcounted.within, ← hcounted.column, ← hline]
  refine ⟨hplace, hc.automaton, hc.options, hc.input, hc.lineStarts, a, ⟨b, hglyphs⟩, ?_⟩
  rw [← hplace]
  rfl

structure Stands (l : Lexer) (text : Text) (a : List Glyph) (c : Cursor) :
    Prop extends c.Serves l text where
  front : a <+: text.glyphs
  current : c.head.current = (placeOf a).offset

theorem stands_reset (l : Lexer) (text : Text) : (l.reset text).Stands l text [] where
  automaton := rfl
  options := rfl
  input := rfl
  lineStarts := rfl
  marked := ⟨[], List.nil_prefix, rfl⟩
  front := List.nil_prefix
  current := rfl

end Cursor

section Longest

variable {gs : List Glyph} {k : Kind} {m n : Nat}

/-- A match of so many characters, in bytes. No match at all takes none. -/
def inBytes (gs : List Glyph) : Option (Kind × Nat) → Kind × Nat
  | some (kind, n) => (kind, Automaton.byteLength (gs.take n))
  | none => (.eof, 0)

theorem byteLength_take_lt (hgs : ∀ g ∈ gs, g.bytes ≠ []) (hmn : m < n) (hn : n ≤ gs.length) :
    Automaton.byteLength (gs.take m) < Automaton.byteLength (gs.take n) := by
  obtain ⟨g, hg⟩ : ∃ g, gs[m]? = some g := ⟨_, List.getElem?_eq_getElem (Nat.lt_of_lt_of_le hmn hn)⟩
  have hfirst : gs.take (m + 1) = gs.take m ++ [g] := by rw [List.take_add_one, hg]; rfl
  have hrest : gs.take n = gs.take (m + 1) ++ (gs.drop (m + 1)).take (n - (m + 1)) := by
    rw [← List.take_add, Nat.add_sub_cancel' hmn]
  have hpos := List.length_pos_iff.2 (hgs g (List.mem_of_getElem? hg))
  rw [hrest, hfirst]
  simp only [Automaton.byteLength, List.flatMap_append, List.flatMap_singleton, List.length_append]
  omega

theorem byteLength_take_lt_iff (hgs : ∀ g ∈ gs, g.bytes ≠ []) (hm : m ≤ gs.length)
    (hn : n ≤ gs.length) :
    Automaton.byteLength (gs.take m) < Automaton.byteLength (gs.take n) ↔ m < n := by
  refine ⟨fun hlt => ?_, fun hlt => byteLength_take_lt hgs hlt hn⟩
  by_contra hnot
  rcases Nat.eq_or_lt_of_le (Nat.le_of_not_lt hnot) with rfl | hgt
  · exact Nat.lt_irrefl _ hlt
  · exact Nat.lt_asymm hlt (byteLength_take_lt hgs hgt hm)

/-- A match takes some characters, and no more than there are. -/
def Bounded (gs : List Glyph) (best : Option (Kind × Nat)) : Prop :=
  ∀ k n, best = some (k, n) → 0 < n ∧ n ≤ gs.length

/-- A match takes some bytes. -/
theorem inBytes_eq_zero_iff (hgs : ∀ g ∈ gs, g.bytes ≠ []) {best : Option (Kind × Nat)}
    (hbest : Bounded gs best) :
    (inBytes gs best).2 = 0 ↔ best = none := by
  cases best with
  | none => exact ⟨fun _ => rfl, fun _ => rfl⟩
  | some found =>
    obtain ⟨hpos, hle⟩ := hbest found.1 found.2 rfl
    have hlt := (byteLength_take_lt_iff hgs (Nat.zero_le _) hle).2 hpos
    exact ⟨fun hzero => absurd hzero (Nat.ne_of_gt (Nat.lt_of_le_of_lt (Nat.zero_le _) hlt)), nofun⟩

theorem bounded_longest? (d : Dictionary) (gs : List Glyph) : Bounded gs (d.longest? gs) := by
  have hup : ∀ {codes : List Nat} {n m : Nat} {k : Kind},
      d.longestUpTo codes n = some (k, m) → 0 < m := by
    intro codes n m k h
    induction n with
    | zero => cases h
    | succ n ih =>
      rw [Dictionary.longestUpTo] at h
      split at h
      · cases h
        exact Nat.succ_pos n
      · exact ih h
  intro k n h
  rw [longest?_eq] at h
  exact ⟨hup h, longestUpTo_le h⟩

open Reading

/-- A scanner of the cursor is compared in bytes with the longest match so far, and a plain one in
characters. -/
theorem longer_spec {r : Reading Bool} {plain : Scanner} (hfollows : Follows r plain) {kind : Kind}
    {input : Text} {h : Head}
    (hahead : ahead input h = gs) (hgs : ∀ g ∈ gs, g.bytes ≠ []) {best : Option (Kind × Nat)}
    (hbest : Bounded gs best) :
    Bounded gs (longer gs best (kind, plain)) ∧ inBytes gs (longer gs best (kind, plain)) =
      if (r input h).1 && (inBytes gs best).2 < (r input h).2.current - h.current then
        (kind, (r input h).2.current - h.current)
      else inBytes gs best := by
  rw [longer]
  rcases hfollows input h with ⟨w, hfound, hpasses, htaken⟩ | ⟨hfails, htaken⟩
  · rw [hahead] at htaken
    have hle : w.length ≤ gs.length := by
      rw [← hahead, hpasses.ahead_eq, List.length_append]
      exact Nat.le_add_right _ _
    have hwidth : (r input h).2.current - h.current = Automaton.byteLength (gs.take w.length) := by
      rw [hpasses.current_eq, Nat.add_sub_cancel_left, ← hahead, hpasses.ahead_eq, List.take_left,
        Automaton.byteLength]
    have hlonger : (inBytes gs best).2 < Automaton.byteLength (gs.take w.length) ↔
        (best.map (·.2)).getD 0 < w.length := by
      cases best with
      | none =>
        have hnothing := byteLength_take_lt_iff hgs (Nat.zero_le _) hle
        exact hnothing
      | some b => exact byteLength_take_lt_iff hgs (hbest b.1 b.2 rfl).2 hle
    simp only [htaken, hfound, hwidth, Bool.true_and, decide_eq_true_iff, hlonger]
    split
    · rename_i hlt
      refine ⟨fun k n heq => ?_, rfl⟩
      cases heq
      exact ⟨Nat.lt_of_le_of_lt (Nat.zero_le _) hlt, hle⟩
    · exact ⟨hbest, rfl⟩
  · rw [hahead] at htaken
    simp only [htaken, hfails]
    exact ⟨hbest, rfl⟩

/-- The scanners of the cursor find the longest match of the plain scanners, wherever they leave the
cursor. -/
theorem longest_spec {table : List (Kind × Reading Bool)} {plain : List (Kind × Scanner)}
    (hfollows : List.Forall₂ (fun r s => r.1 = s.1 ∧ Follows r.2 s.2) table plain)
    {input : Text} {start : Nat}
    (hahead : ∀ width, ahead input ⟨start, width⟩ = gs) (hgs : ∀ g ∈ gs, g.bytes ≠ [])
    {best : Option (Kind × Nat)} (hbest : Bounded gs best) (h : Head) :
    Bounded gs (plain.foldl (longer gs) best) ∧
      (Reading.longest start table (inBytes gs best) input h).1 =
        inBytes gs (plain.foldl (longer gs) best) := by
  induction hfollows generalizing best h with
  | nil => exact ⟨hbest, rfl⟩
  | @cons r s table plain hrs _ ih =>
    obtain ⟨kind, r⟩ := r
    obtain ⟨kind', s⟩ := s
    obtain ⟨rfl, hr⟩ := hrs
    obtain ⟨hbounded, hlonger⟩ := @longer_spec gs r s hr kind input ⟨start, h.width⟩
      (hahead h.width) hgs best hbest
    rw [List.foldl_cons]
    obtain ⟨hall, hrest⟩ := ih hbounded (r input ⟨start, h.width⟩).2
    refine ⟨hall, ?_⟩
    rw [← hrest, hlonger]
    rfl

/-- The search tree of a lexer finds the longest fixed string of the dictionary. -/
theorem matchAt_automaton (d : Dictionary) (input : Text) (h : Head) :
    d.automaton.matchAt input h.current = inBytes (ahead input h) (d.longest? (ahead input h)) := by
  have hmatch := matchText_eq d (input.drop h.current)
  rw [Dictionary.matchText, Automaton.matchAt, List.drop_zero] at hmatch
  rw [Automaton.matchAt, hmatch, ahead]
  cases d.longest? (Text.glyphs (input.drop h.current)) <;> rfl

/-- The token at the front, in bytes. -/
theorem Cursor.longest_eq {l : Lexer} {c : Cursor}
    (hautomaton : c.automaton = l.dictionary.automaton)
    (hoptions : c.options = l.options) (hahead : ahead c.input c.head = gs)
    (hgs : ∀ g ∈ gs, g.bytes ≠ []) :
    Bounded gs (l.tokenAt? gs) ∧ c.longest.1 = inBytes gs (l.tokenAt? gs) := by
  have hfixed := bounded_longest? l.dictionary gs
  have hstart : ∀ width, ahead c.input ⟨c.head.current, width⟩ = gs := fun _ => hahead
  have hnothing : Bounded gs none := nofun
  obtain ⟨hscanned, hlongest⟩ := longest_spec (follows_scanners l.options) hstart
    hgs hnothing c.head
  have hscan : (Lexical.scanners l.options).foldl (longer gs) none =
    longestScan (Lexical.scanners l.options) gs := rfl
  have hnone : inBytes gs none = (.eof, 0) := rfl
  rw [hscan] at hscanned hlongest
  rw [hnone] at hlongest
  have hpair : c.longest.1 =
      if 0 < (inBytes gs (l.dictionary.longest? gs)).2 &&
        (inBytes gs (longestScan (Lexical.scanners l.options) gs)).2 ≤
          (inBytes gs (l.dictionary.longest? gs)).2 then
          inBytes gs (l.dictionary.longest? gs)
      else inBytes gs (longestScan (Lexical.scanners l.options) gs) := by
    simp only [Cursor.longest, hautomaton, hoptions, matchAt_automaton, hahead, hlongest]
  rw [hpair, Lexer.tokenAt?]
  generalize l.dictionary.longest? gs = fixed at hfixed ⊢
  generalize longestScan (Lexical.scanners l.options) gs = scanned at hscanned ⊢
  cases fixed with
  | none => exact ⟨hscanned, rfl⟩
  | some f =>
    obtain ⟨kind, n⟩ := f
    obtain ⟨hpos, hn⟩ := hfixed kind n rfl
    have hbytes : 0 < Automaton.byteLength (gs.take n) :=
      (byteLength_take_lt_iff hgs (Nat.zero_le _) hn).2 hpos
    cases scanned with
    | none =>
      refine ⟨hfixed, ?_⟩
      simp [inBytes, hbytes]
    | some other =>
      obtain ⟨kind', m⟩ := other
      have hm := (hscanned kind' m rfl).2
      have hlt := byteLength_take_lt_iff hgs hn hm
      dsimp only
      by_cases hnm : n < m
      · have hlonger := hlt.2 hnm
        rw [if_pos hnm]
        refine ⟨hscanned, ?_⟩
        simp [inBytes, Nat.not_le.2 hlonger]
      · have hshorter := Nat.le_of_not_lt (mt hlt.1 hnm)
        rw [if_neg hnm]
        refine ⟨hfixed, ?_⟩
        simp [inBytes, hbytes, hshorter]

end Longest

section Blanks

variable {l : Lexer}

theorem lexemes_blanks (p : Place) (gs : List Glyph) :
    l.lexemes p gs = l.lexemes (p.afterAll (gs.take (run isBlank gs)))
      (gs.drop (run isBlank gs)) := by
  induction gs generalizing p with
  | nil => rfl
  | cons g gs ih =>
    by_cases hg : isBlank g.code = true
    · rw [Lexer.lexemes, if_pos hg, ih, run, if_pos hg]
      rfl
    · rw [run, if_neg hg]
      rfl

theorem run_drop_run (p : Nat → Bool) (gs : List Glyph) : run p (gs.drop (run p gs)) = 0 := by
  induction gs with
  | nil => rfl
  | cons g gs ih =>
    by_cases hg : p g.code = true
    · rw [run, if_pos hg]
      exact ih
    · rw [run, if_neg hg, List.drop_zero, run, if_neg hg]

theorem isBlank_of_run {g : Glyph} {gs : List Glyph} (hrun : run isBlank (g :: gs) = 0) :
    isBlank g.code = false := by
  by_contra hblank
  rw [run, if_pos (by simpa using hblank)] at hrun
  cases hrun

theorem bytes_ne_nil {text : Text} {a b : List Glyph} (hglyphs : text.glyphs = a ++ b) :
    ∀ g ∈ b, g.bytes ≠ [] :=
  fun g hg => Text.glyphs_bytes_ne_nil g (t := text)
    (by rw [hglyphs]; exact List.mem_append_right a hg)

theorem lexemes_stray {g : Glyph} {gs : List Glyph} (hg : isBlank g.code = false)
    (hnone : l.tokenAt? (g :: gs) = none)
    (p : Place) : l.lexemes p (g :: gs) =
      (.stray g.code p :: (l.lexemes (p.after g) gs).1, (l.lexemes (p.after g) gs).2) := by
  rw [Lexer.lexemes, hg, if_neg Bool.false_ne_true, hnone]

theorem lexemes_token {g : Glyph} {gs : List Glyph} (hg : isBlank g.code = false)
    {k : Kind} {n : Nat}
    (hsome : l.tokenAt? (g :: gs) = some (k, n)) (hn : 0 < n) (p : Place) : l.lexemes p (g :: gs) =
      (.token ⟨k, ((g :: gs).take n).flatMap (·.bytes), p⟩ ::
          (l.lexemes (p.afterAll ((g :: gs).take n)) ((g :: gs).drop n)).1,
        (l.lexemes (p.afterAll ((g :: gs).take n)) ((g :: gs).drop n)).2) := by
  obtain ⟨m, rfl⟩ := Nat.exists_eq_add_of_lt hn
  rw [Lexer.lexemes, hg, if_neg Bool.false_ne_true, hsome, Nat.zero_add, List.take_succ_cons,
    List.drop_succ_cons]
  rfl

end Blanks

namespace Cursor

variable {l : Lexer} {text : Text} {c : Cursor} {a b : List Glyph}

theorem ahead_of_offset {head : Head} (hhead : head.current = (placeOf a).offset)
    (hglyphs : text.glyphs = a ++ b) :
    Reading.ahead text head = b := by
  have hdrop : text.drop (a.flatMap (·.bytes)).length = b.flatMap (·.bytes) := by
    have hsplit : text = a.flatMap (·.bytes) ++ b.flatMap (·.bytes) := by
      rw [← List.flatMap_append, ← hglyphs, Text.flatMap_bytes_glyphs]
    generalize a.flatMap (·.bytes) = front at hsplit ⊢
    rw [hsplit, List.drop_left]
  have hcut : Text.glyphs (a.flatMap (·.bytes) ++ b.flatMap (·.bytes)) = a ++ b := by
    rw [← List.flatMap_append, ← hglyphs, Text.flatMap_bytes_glyphs]
  rw [Reading.ahead, hhead, offset_start, hdrop]
  exact (Text.glyphs_cut hcut rfl).1

theorem Stands.skipBlanks (hc : c.Stands l text a) (hglyphs : text.glyphs = a ++ b) :
    c.skipBlanks.Stands l text (a ++ b.take (run isBlank b)) ∧
      c.skipBlanks.start = c.skipBlanks.head.current := by
  obtain ⟨-, hpasses⟩ := Reading.acceptAll_spec isBlank c.input c.head
  rw [hc.input, ahead_of_offset hc.current hglyphs, ← hc.input] at hpasses
  refine ⟨⟨⟨hc.automaton, hc.options, hc.input, hc.lineStarts, hc.marked⟩, ?_, ?_⟩, rfl⟩
  · exact ⟨b.drop (run isBlank b), by rw [List.append_assoc, List.take_append_drop, hglyphs]⟩
  · show (Reading.acceptAll isBlank c.input c.head).2.current = _
    rw [hpasses.current_eq, hc.current, placeOf, placeOf, Place.afterAll_append,
      Place.offset_afterAll _ (b.take _)]

/-- At the end the token of the end comes, and the cursor stays. -/
theorem Stands.ending (hc : c.Stands l text text.glyphs) :
    c.ending.1 = ⟨.eof, [], placeOf text.glyphs⟩ ∧ c.ending.2.Stands l text text.glyphs ∧
      c.ending.2.log = c.log := by
  obtain ⟨hplace, hserves⟩ := lineColumn_spec hc.toServes (List.prefix_refl _)
  rw [Cursor.ending, hc.current, hplace]
  exact ⟨rfl, ⟨hserves, hc.front, hc.current⟩, rfl⟩

/-- An unexpected character is reported at its place and passed, wherever the cursor was left. -/
theorem Serves.report (hc : c.Serves l text) {g : Glyph} (hglyphs : text.glyphs = a ++ g :: b) :
    (c.report (placeOf a).offset).Stands l text (a ++ [g]) ∧
      (c.report (placeOf a).offset).log = c.log ++ [(g.code, placeOf a)] := by
  have hahead : Reading.ahead c.input { c.head with current := (placeOf a).offset } = g :: b := by
    rw [hc.input]
    exact ahead_of_offset rfl hglyphs
  obtain ⟨g', hcode, hpasses⟩ := (Reading.nextRune_spec c.input
    { c.head with current := (placeOf a).offset }).resolve_left
    fun hend => by
      rw [hahead] at hend
      cases hend.1
  have hfirst := hpasses.ahead_eq
  rw [hahead] at hfirst
  obtain ⟨rfl, -⟩ := List.cons.inj hfirst
  have hread : Serves l text { c with
      head := (Reading.nextRune c.input { c.head with current := (placeOf a).offset }).2 } :=
    ⟨hc.automaton, hc.options, hc.input, hc.lineStarts, hc.marked⟩
  obtain ⟨hplace, hserves⟩ := lineColumn_spec hread ⟨g :: b, hglyphs.symm⟩
  refine ⟨⟨⟨hserves.automaton, hserves.options, hserves.input, hserves.lineStarts, hserves.marked⟩,
    ?_, ?_⟩, ?_⟩
  · exact ⟨b, by rw [hglyphs, List.append_assoc]; rfl⟩
  · refine hpasses.current_eq.trans ?_
    rw [placeOf, placeOf, Place.afterAll_append, Place.offset_afterAll _ [g]]
  · show c.log ++ [(_, _)] = _
    rw [hcode, hplace]
    rfl

/-- A token covers the characters from the start to the cursor. -/
theorem Serves.newToken (hc : c.Serves l text) {w : List Glyph}
    (hglyphs : text.glyphs = a ++ (w ++ b)) (hstart : c.start = (placeOf a).offset)
    (hcurrent : c.head.current = (placeOf (a ++ w)).offset) (k : Kind) :
    (c.newToken k).1 = ⟨k, w.flatMap (·.bytes), placeOf a⟩ ∧
      (c.newToken k).2.Stands l text (a ++ w) ∧
      (c.newToken k).2.log = c.log := by
  obtain ⟨hplace, hserves⟩ := lineColumn_spec hc (a := a) ⟨w ++ b, hglyphs.symm⟩
  have hwidth : c.head.current - c.start = (w.flatMap (·.bytes)).length := by
    rw [hcurrent, hstart, placeOf, placeOf, Place.afterAll_append, Place.offset_afterAll _ w,
      Nat.add_sub_cancel_left]
  have himage : (c.input.drop c.start).take (c.head.current - c.start) = w.flatMap (·.bytes) := by
    rw [hwidth, hstart, hc.input, offset_start, slice_eq hglyphs]
  refine ⟨?_, ⟨⟨hserves.automaton, hserves.options, hserves.input, hserves.lineStarts, ?_⟩,
    ?_, hcurrent⟩, rfl⟩
  · rw [Cursor.newToken, himage, hstart, hplace]
  · rw [← hstart] at hserves
    exact hserves.marked
  · exact ⟨b, by rw [hglyphs, List.append_assoc]⟩

/-- A match of so many characters is a token behind which the cursor stands. -/
theorem Serves.take (hc : c.Serves l text) (hglyphs : text.glyphs = a ++ b)
    (hstart : c.start = (placeOf a).offset) (k : Kind) (n : Nat) :
    ((c.past (placeOf a).offset (Automaton.byteLength (b.take n))).newToken k).1 =
        ⟨k, (b.take n).flatMap (·.bytes), placeOf a⟩ ∧
      ((c.past (placeOf a).offset (Automaton.byteLength (b.take n))).newToken k).2.Stands l text
        (a ++ b.take n) ∧
      ((c.past (placeOf a).offset (Automaton.byteLength (b.take n))).newToken k).2.log = c.log := by
  have hpast : (c.past (placeOf a).offset (Automaton.byteLength (b.take n))).Serves l text :=
    ⟨hc.automaton, hc.options, hc.input, hc.lineStarts, hc.marked⟩
  have hbehind : (placeOf (a ++ b.take n)).offset =
      (placeOf a).offset + Automaton.byteLength (b.take n) := by
    rw [placeOf, placeOf, Place.afterAll_append, Place.offset_afterAll _ (b.take n),
      Automaton.byteLength]
  have hsplit : text.glyphs = a ++ (b.take n ++ b.drop n) := by rw [List.take_append_drop, hglyphs]
  exact hpast.newToken hsplit hstart hbehind.symm k

/-- What is left behind the blanks. -/
theorem Stands.rest_eq (hglyphs : text.glyphs = a ++ b) :
    text.glyphs = (a ++ b.take (run isBlank b)) ++ b.drop (run isBlank b) := by
  rw [List.append_assoc, List.take_append_drop, hglyphs]

/-- The cursor is at the end if nothing but blanks is left. -/
theorem Stands.end_iff (hc : c.Stands l text a) (hglyphs : text.glyphs = a ++ b) :
    c.input.length ≤ c.head.current ↔ b = [] := by
  have hlength : text.length = (placeOf a).offset + (b.flatMap (·.bytes)).length := by
    rw [offset_start, ← List.length_append, ← List.flatMap_append, ← hglyphs,
      Text.flatMap_bytes_glyphs]
  rw [hc.input, hc.current, hlength]
  constructor
  · intro hle
    cases b with
    | nil => rfl
    | cons g b =>
      have hg := List.length_pos_iff.2 (bytes_ne_nil hglyphs g List.mem_cons_self)
      rw [List.flatMap_cons, List.length_append] at hle
      omega
  · rintro rfl
    exact Nat.le_refl _

/-- The longest match at the cursor is the token at the front of what is left. -/
theorem Stands.longest_eq (hc : c.Stands l text a) (hglyphs : text.glyphs = a ++ b) :
    Bounded b (l.tokenAt? b) ∧ c.longest.1 = inBytes b (l.tokenAt? b) ∧ c.longest.2.Serves l text ∧
      c.longest.2.start = c.start ∧ c.longest.2.log = c.log := by
  have hahead : Reading.ahead c.input c.head = b := by
    rw [hc.input]
    exact ahead_of_offset hc.current hglyphs
  obtain ⟨hbounded, hlongest⟩ := Cursor.longest_eq hc.automaton hc.options hahead
    (bytes_ne_nil hglyphs)
  refine ⟨hbounded, hlongest, ?_⟩
  rw [Cursor.longest]
  exact ⟨⟨hc.automaton, hc.options, hc.input, hc.lineStarts, hc.marked⟩, rfl, rfl⟩

/-- What the next call gives: the lexemes up to the next token, whose unexpected characters are
reported, or up to the end. -/
theorem Stands.next (hc : c.Stands l text a) (hglyphs : text.glyphs = a ++ b) :
    ∃ reports, c.next.2.log = c.log ++ reports ∧
      ((c.next.1 = ⟨.eof, [], placeOf text.glyphs⟩ ∧ c.next.2.Stands l text text.glyphs ∧
          l.lexemes (placeOf a) b = (reports.map Lexeme.ofReport, placeOf text.glyphs)) ∨
        ∃ a' b', c.next.1.kind ≠ .eof ∧ text.glyphs = a' ++ b' ∧ c.next.2.Stands l text a' ∧
          l.lexemes (placeOf a) b = (reports.map Lexeme.ofReport ++
            Lexeme.token c.next.1 :: (l.lexemes (placeOf a') b').1,
            (l.lexemes (placeOf a') b').2)) := by
  fun_induction Cursor.next c generalizing a b with
  | case1 c hend =>
    obtain ⟨hskip, -⟩ := hc.skipBlanks hglyphs
    have hrest := Stands.rest_eq hglyphs
    have hnil := (hskip.end_iff hrest).1 hend
    rw [hnil, List.append_nil] at hrest
    rw [← hrest] at hskip
    obtain ⟨htoken, hstands, hlog⟩ := hskip.ending
    refine ⟨[], by rw [hlog, List.append_nil]; rfl, .inl ⟨htoken, hstands, ?_⟩⟩
    rw [lexemes_blanks, hnil, Lexer.lexemes, placeOf, placeOf, ← Place.afterAll_append, ← hrest]
    rfl
  | case2 c hend hnone ih =>
    obtain ⟨hskip, -⟩ := hc.skipBlanks hglyphs
    have hrest := Stands.rest_eq hglyphs
    have hne := mt (hskip.end_iff hrest).2 hend
    obtain ⟨hbounded, hlongest, hserves, -, hlog⟩ := hskip.longest_eq hrest
    have hblank := run_drop_run isBlank b
    rw [hlongest] at hnone
    rw [hskip.current] at ih ⊢
    rw [lexemes_blanks, placeOf, ← Place.afterAll_append, ← placeOf]
    generalize a ++ b.take (run isBlank b) = front at *
    generalize b.drop (run isBlank b) = rest at *
    obtain ⟨g, rest, rfl⟩ := List.exists_cons_of_ne_nil hne
    have hg := isBlank_of_run hblank
    have htoken := (inBytes_eq_zero_iff (bytes_ne_nil hrest) hbounded).1 hnone
    obtain ⟨hstands, hreport⟩ := hserves.report hrest
    have hafter : text.glyphs = (front ++ [g]) ++ rest := by rw [hrest, List.append_assoc]; rfl
    obtain ⟨reports, hlogged, hnext⟩ := ih hstands hafter
    have hplace : placeOf (front ++ [g]) = (placeOf front).after g :=
      Place.afterAll_append _ front [g]
    refine ⟨(g.code, placeOf front) :: reports, ?_, ?_⟩
    · rw [hlogged, hreport, hlog, List.append_assoc]
      rfl
    · rw [lexemes_stray hg htoken, ← hplace]
      rcases hnext with ⟨hend, hstands', hlexemes⟩ | ⟨a', b', hkind, hsplit, hstands', hlexemes⟩
      · exact .inl ⟨hend, hstands', by rw [hlexemes]; rfl⟩
      · exact .inr ⟨a', b', hkind, hsplit, hstands', by rw [hlexemes]; rfl⟩
  | case3 c hend hsome =>
    obtain ⟨hskip, hstart⟩ := hc.skipBlanks hglyphs
    have hrest := Stands.rest_eq hglyphs
    have hne := mt (hskip.end_iff hrest).2 hend
    obtain ⟨hbounded, hlongest, hserves, hstays, hlog⟩ := hskip.longest_eq hrest
    have hblank := run_drop_run isBlank b
    rw [hlongest] at hsome ⊢
    rw [hstart] at hstays
    rw [hskip.current] at hstays ⊢
    rw [lexemes_blanks, placeOf, ← Place.afterAll_append, ← placeOf]
    generalize a ++ b.take (run isBlank b) = front at *
    generalize b.drop (run isBlank b) = rest at *
    obtain ⟨g, rest, rfl⟩ := List.exists_cons_of_ne_nil hne
    cases htoken : l.tokenAt? (g :: rest) with
    | none =>
      rw [htoken] at hsome
      exact absurd rfl hsome
    | some found =>
      obtain ⟨k, n⟩ := found
      have hmatch : inBytes (g :: rest) (some (k, n)) =
        (k, Automaton.byteLength ((g :: rest).take n)) := rfl
      have hpos := (hbounded k n htoken).1
      obtain ⟨htaken, hstands, hkept⟩ := hserves.take hrest hstays k n
      rw [hmatch]
      refine ⟨[], ?_, .inr ⟨_, (g :: rest).drop n, ?_, ?_, hstands, ?_⟩⟩
      · exact hkept.trans (hlog.trans (List.append_nil _).symm)
      · rw [htaken]
        exact tokenAt?_ne_eof htoken
      · rw [List.append_assoc, List.take_append_drop, hrest]
      · rw [htaken, lexemes_token (isBlank_of_run hblank) htoken hpos, placeOf, placeOf,
          Place.afterAll_append]
        rfl

/-- Asking for all tokens gives the lexemes that are left. -/
theorem Stands.drain (hc : c.Stands l text a) (hglyphs : text.glyphs = a ++ b) :
    c.drain = ((l.lexemes (placeOf a) b).1, ⟨.eof, [], (l.lexemes (placeOf a) b).2⟩) := by
  fun_induction Cursor.drain c generalizing a b with
  | case1 c heof =>
    obtain ⟨reports, hlog, hnext⟩ := hc.next hglyphs
    obtain ⟨htoken, -, hlexemes⟩ := hnext.resolve_right fun ⟨_, _, hkind, _⟩ => hkind heof
    rw [hlexemes, htoken, strays, hlog, List.drop_left]
  | case2 c hkind ih =>
    obtain ⟨reports, hlog, hnext⟩ := hc.next hglyphs
    obtain ⟨a', b', -, hsplit, hstands, hlexemes⟩ := hnext.resolve_left fun ⟨htoken, _, _⟩ =>
      hkind (by rw [htoken])
    rw [ih hstands hsplit, hlexemes, strays, hlog, List.drop_left]

/-- A call after some others: its token, and the cursor it leaves. -/
def call (c : Cursor) : Nat → Token × Cursor
  | 0 => c.next
  | n + 1 => (c.call n).2.next

def problems (c : Cursor) : List Problem := c.log.map Problem.ofReport

theorem call_succ (c : Cursor) (n : Nat) : c.call (n + 1) = c.next.2.call n := by
  induction n with
  | zero => rfl
  | succ n ih => exact congrArg (fun r : Token × Cursor => r.2.next) ih

theorem filterMap_reports (reports : List (Nat × Place)) :
    (reports.map Lexeme.ofReport).filterMap Lexeme.token? = [] ∧
      (reports.map Lexeme.ofReport).filterMap Lexeme.problem? = reports.map Problem.ofReport := by
  rw [List.filterMap_map, List.filterMap_map]
  exact ⟨List.filterMap_eq_nil_iff.2 fun _ _ => rfl, congrFun List.filterMap_eq_map reports⟩

/-- Calls give the tokens that are left, then the end for ever. What they report comes in order, and
all of it before the end. -/
theorem Stands.call (hc : c.Stands l text a) (hglyphs : text.glyphs = a ++ b) (n : Nat) :
    (c.call n).1 = ((l.lexemes (placeOf a) b).1.filterMap Lexeme.token?)[n]?.getD
      ⟨.eof, [], placeOf text.glyphs⟩ ∧
      ∃ more, (c.call n).2.problems ++ more = c.problems ++
        (l.lexemes (placeOf a) b).1.filterMap Lexeme.problem? ∧
        (((l.lexemes (placeOf a) b).1.filterMap Lexeme.token?).length ≤ n → more = []) := by
  induction n generalizing c a b with
  | zero =>
    obtain ⟨reports, hlog, hnext⟩ := hc.next hglyphs
    obtain ⟨htokens, hproblems⟩ := filterMap_reports reports
    have hsofar : (c.call 0).2.problems = c.problems ++ reports.map Problem.ofReport := by
      rw [problems, problems, ← List.map_append, ← hlog]
      rfl
    rcases hnext with ⟨htoken, -, hlexemes⟩ | ⟨a', b', -, -, -, hlexemes⟩
    · rw [hlexemes, htokens, hproblems, hsofar]
      exact ⟨htoken, [], List.append_nil _, fun _ => rfl⟩
    · rw [hlexemes, List.filterMap_append, List.filterMap_append, htokens, hproblems, hsofar]
      exact ⟨rfl, _, List.append_assoc .., nofun⟩
  | succ n ih =>
    obtain ⟨reports, hlog, hnext⟩ := hc.next hglyphs
    obtain ⟨htokens, hproblems⟩ := filterMap_reports reports
    have hsofar : c.next.2.problems = c.problems ++ reports.map Problem.ofReport := by
      rw [problems, problems, ← List.map_append, ← hlog]
    rw [call_succ]
    rcases hnext with ⟨-, hstands, hlexemes⟩ | ⟨a', b', -, hsplit, hstands, hlexemes⟩
    · obtain ⟨htoken, more, hmore, hend⟩ := ih hstands (List.append_nil _).symm
      rw [Lexer.lexemes] at htoken hmore hend
      rw [hlexemes, htokens, hproblems, ← hsofar]
      exact ⟨htoken, more, hmore.trans (List.append_nil _), fun _ => hend (Nat.zero_le n)⟩
    · obtain ⟨htoken, more, hmore, hend⟩ := ih hstands hsplit
      rw [hlexemes, List.filterMap_append, List.filterMap_append, htokens, hproblems,
        ← List.append_assoc, ← hsofar]
      exact ⟨htoken, more, hmore, fun hle => hend (Nat.le_of_succ_le_succ hle)⟩

end Cursor

/-- The lexemes of a text, told character by character, and the token of its end. -/
def Lexer.outline (l : Lexer) (text : Text) : List Lexeme × Token :=
  ((l.lexemes {} text.glyphs).1, ⟨.eof, [], (l.lexemes {} text.glyphs).2⟩)

/-- Asking for one token after another tells all lexemes of a text. -/
theorem read_eq (l : Lexer) (text : Text) : l.read text = l.outline text :=
  (Cursor.stands_reset l text).drain rfl

theorem kind_read (l : Lexer) (text : Text) : (l.read text).2.kind = .eof := by
  rw [read_eq, Lexer.outline]

/-- The lexemes of a text start one after another, before its end. -/
theorem read_rising (l : Lexer) (text : Text) :
    Rising 0 (l.read text).2.place.offset (l.read text).1 := by
  rw [read_eq]
  exact (lexemes_rising l {} Text.glyphs_bytes_ne_nil).2

end Lexical

end Formulary
