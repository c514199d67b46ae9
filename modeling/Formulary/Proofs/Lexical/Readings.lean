import Formulary.Lexical.Cursor
import Formulary.Proofs.Lexical.LongestMatch
import Formulary.Proofs.Lexical.Places

/-!
# What the cursor reads

Every scanner of the cursor follows a plain scanner of characters: it is there exactly if the plain
one is, and then the cursor is behind the characters that the plain one takes (`Reading.Follows`).
Where a scanner is not there, only what has to be put back is put back.
-/

namespace Formulary

open Text (Glyph)

namespace Lexical

section Scanner

variable {p : Nat → Bool} {gs : List Glyph}

theorem one_eq_none (hnot : ∀ g rest, gs = g :: rest → p g.code = false) : one p gs = none := by
  cases gs with
  | nil => rfl
  | cons g rest => simp [one, hnot g rest rfl]

theorem run_eq_zero (hnot : ∀ g rest, gs = g :: rest → p g.code = false) : run p gs = 0 := by
  cases gs with
  | nil => rfl
  | cons g rest => simp [run, hnot g rest rfl]

theorem run_le (p : Nat → Bool) (gs : List Glyph) : run p gs ≤ gs.length := by
  induction gs with
  | nil => exact Nat.le_refl _
  | cons g gs ih =>
    rw [run]
    split
    · exact Nat.succ_le_succ ih
    · exact Nat.zero_le _

theorem length_take_run (p : Nat → Bool) (gs : List Glyph) :
    (gs.take (run p gs)).length = run p gs := by
  rw [List.length_take, Nat.min_eq_left (run_le p gs)]

theorem both_nothing (s : Scanner) (gs : List Glyph) : both s (fun _ => some 0) gs = s gs := by
  rw [both]
  cases s gs <;> rfl

/-- The characters of an escape are passed over one by one. -/
theorem stringBody_skip (skip : Nat) (gs : List Glyph) :
    stringBody skip gs = (stringBody 0 (gs.drop skip)).map (skip + ·) := by
  induction skip generalizing gs with
  | zero => simp
  | succ skip ih =>
    cases gs with
    | nil => rfl
    | cons g gs =>
      rw [stringBody, ih, List.drop_succ_cons, Option.map_map]
      exact congrArg (Option.map · _) (funext fun n => by simp; omega)

end Scanner

namespace Reading

variable {input : Text} {h h' h'' : Head} {w v : List Glyph} {a b r : Reading Bool} {s t : Scanner}
  {p : Nat → Bool}

/-- The characters that are still to be read. -/
def ahead (input : Text) (h : Head) : List Glyph := Text.glyphs (input.drop h.current)

structure Passes (input : Text) (h h' : Head) (w : List Glyph) : Prop where
  ahead_eq : ahead input h = w ++ ahead input h'
  current_eq : h'.current = h.current + (w.flatMap (·.bytes)).length

theorem ahead_of_current (hsame : h'.current = h.current) : ahead input h' = ahead input h := by
  rw [ahead, hsame, ahead]

theorem Passes.stays (hsame : h'.current = h.current) : Passes input h h' [] :=
  ⟨(ahead_of_current hsame).symm, hsame⟩

theorem Passes.trans (hw : Passes input h h' w) (hv : Passes input h' h'' v) :
    Passes input h h'' (w ++ v) where
  ahead_eq := by rw [hw.ahead_eq, hv.ahead_eq, List.append_assoc]
  current_eq := by
    rw [hv.current_eq, hw.current_eq, List.flatMap_append, List.length_append, Nat.add_assoc]

theorem Passes.drop (hw : Passes input h h' w) :
    (ahead input h).drop w.length = ahead input h' := by
  rw [hw.ahead_eq, List.drop_left]

/-- The next character is the first one ahead. -/
theorem nextRune_spec (input : Text) (h : Head) :
    ahead input h = [] ∧ (nextRune input h).1 = none ∧ (nextRune input h).2.current = h.current ∨
    ∃ g, (nextRune input h).1 = some g.code ∧ Passes input h (nextRune input h).2 [g] := by
  rcases Nat.lt_or_ge h.current input.length with hlt | hge
  · refine .inr ?_
    have hne : input.drop h.current ≠ [] := by simpa using hlt
    have hlength : ((input.drop h.current).take
      (Text.decodeFirst (input.drop h.current)).2).length =
        (Text.decodeFirst (input.drop h.current)).2 := by
      rw [List.length_take, Nat.min_eq_left (Text.decodeFirst_width_le _)]
    rw [nextRune, if_neg (Nat.not_le.2 hlt)]
    refine ⟨⟨_, (input.drop h.current).take (Text.decodeFirst (input.drop h.current)).2⟩, rfl, ?_,
      ?_⟩
    · rw [ahead, Text.glyphs_eq_cons hne, List.drop_drop]
      rfl
    · rw [List.flatMap_singleton, hlength]
  · refine .inl ⟨?_, ?_⟩
    · rw [ahead, List.drop_eq_nil_of_le hge]
      rfl
    · rw [nextRune, if_pos hge]
      exact ⟨rfl, rfl⟩

theorem ahead_of_nextRune (hnext : nextRune input h = (none, h')) : ahead input h = [] := by
  rcases nextRune_spec input h with ⟨hnil, -, -⟩ | ⟨g, hsome, -⟩
  · exact hnil
  · rw [hnext] at hsome
    cases hsome

theorem passes_of_nextRune {c : Nat} (hnext : nextRune input h = (some c, h')) :
    ∃ g, g.code = c ∧ Passes input h h' [g] := by
  rcases nextRune_spec input h with ⟨-, hnone, -⟩ | ⟨g, hsome, hpasses⟩
  · rw [hnext] at hnone
    cases hnone
  · rw [hnext] at hsome hpasses
    exact ⟨g, (Option.some.inj hsome).symm, hpasses⟩

/-- A character of the class is passed; otherwise the cursor stays. -/
theorem accept_spec (p : Nat → Bool) (input : Text) (h : Head) :
    (∃ g, p g.code = true ∧ (accept p input h).1 = true ∧ Passes input h (accept p input h).2 [g]) ∨
      (∀ g gs, ahead input h = g :: gs → p g.code = false) ∧ (accept p input h).1 = false ∧
        (accept p input h).2.current = h.current := by
  rw [accept_eq]
  rcases nextRune_spec input h with ⟨hnil, hnone, -⟩ | ⟨g, hsome, hpasses⟩
  · rw [hnone, hnil]
    exact .inr ⟨nofun, rfl, rfl⟩
  · rw [hsome, Option.any_some]
    cases hp : p g.code with
    | true => exact .inl ⟨g, hp, rfl, hpasses⟩
    | false =>
      refine .inr ⟨fun g' gs heq => ?_, rfl, rfl⟩
      rw [hpasses.ahead_eq, List.singleton_append] at heq
      cases heq
      exact hp

/-- All characters of the class are passed. -/
theorem acceptAll_spec (p : Nat → Bool) (input : Text) (h : Head) :
    (acceptAll p input h).1 = (run p (ahead input h) != 0) ∧
      Passes input h (acceptAll p input h).2 ((ahead input h).take (run p (ahead input h))) := by
  fun_induction acceptAll p input h with
  | case1 h hfound ih =>
    obtain ⟨g, hg, -, hpasses⟩ := (accept_spec p input h).resolve_right fun hnot => by
      simp [hnot.2.1] at hfound
    have hrun : run p (ahead input h) = run p (ahead input (accept p input h).2) + 1 := by
      rw [hpasses.ahead_eq, List.singleton_append, run, if_pos hg]
    rw [hrun]
    refine ⟨rfl, ?_⟩
    rw [hpasses.ahead_eq, List.singleton_append, List.take_succ_cons]
    exact hpasses.trans ih.2
  | case2 h hfound =>
    rcases accept_spec p input h with ⟨-, -, htrue, -⟩ | ⟨hnot, hfails, hsame⟩
    · exact absurd htrue hfound
    · rw [hfails, run_eq_zero hnot]
      exact ⟨rfl, .stays hsame⟩

/-- Up to a number of characters of the class are passed. -/
theorem count_spec (p : Nat → Bool) (n : Nat) (input : Text) (h : Head) :
    (count p n input h).1 = run p ((ahead input h).take n) ∧
      Passes input h (count p n input h).2 ((ahead input h).take
        (run p ((ahead input h).take n))) := by
  induction n generalizing h with
  | zero => exact ⟨rfl, .stays rfl⟩
  | succ n ih =>
    rw [count, bind_eq]
    rcases accept_spec p input h with ⟨g, hg, hfound, hpasses⟩ | ⟨hnot, hfails, hsame⟩
    · rw [hfound, if_pos rfl, bind_eq, hpasses.ahead_eq, List.singleton_append,
        List.take_succ_cons, run, if_pos hg, List.take_succ_cons, (ih _).1]
      exact ⟨rfl, hpasses.trans (ih _).2⟩
    · have hrun : run p ((ahead input h).take (n + 1)) = 0 := by
        refine run_eq_zero fun g gs heq => ?_
        cases hahead : ahead input h with
        | nil => simp [hahead] at heq
        | cons x xs =>
          rw [hahead, List.take_succ_cons] at heq
          obtain ⟨rfl, -⟩ := List.cons.inj heq
          exact hnot x xs hahead
      rw [hfails, hrun]
      exact ⟨rfl, .stays hsame⟩

/-- A reading came out with as many characters as a scanner takes, and passed them, or with nothing
where there is nothing. -/
def Matches (input : Text) (h : Head) (found : Bool × Head) (taken : Option Nat) : Prop :=
  (∃ w, found.1 = true ∧ Passes input h found.2 w ∧ taken = some w.length) ∨
    found.1 = false ∧ taken = none

theorem Matches.after (hw : Passes input h h' w) {found : Bool × Head} {taken : Option Nat}
    (hfound : Matches input h' found taken) : Matches input h found (taken.map (w.length + ·)) := by
  rcases hfound with ⟨v, htrue, hv, rfl⟩ | ⟨hfalse, rfl⟩
  · exact .inl ⟨w ++ v, htrue, hw.trans hv, by rw [List.length_append]; rfl⟩
  · exact .inr ⟨hfalse, rfl⟩

theorem Matches.of_current (hsame : h'.current = h.current) {found : Bool × Head}
    {taken : Option Nat}
    (hfound : Matches input h' found taken) : Matches input h found taken := by
  have hafter := Matches.after (.stays hsame) hfound
  simpa using hafter

def Follows (r : Reading Bool) (s : Scanner) : Prop :=
  ∀ input h, Matches input h (r input h) (s (ahead input h))

/-- A reading leaves the cursor where it was, if it does not find anything. -/
def Restores (r : Reading Bool) : Prop :=
  ∀ input h, (r input h).1 = false → (r input h).2.current = h.current

theorem Follows.congr (hr : Follows r s) (hst : ∀ gs, s gs = t gs) : Follows r t := fun input h =>
    hst _ ▸ hr input h

theorem follows_accept (p : Nat → Bool) : Follows (accept p) (one p) := by
  intro input h
  rcases accept_spec p input h with ⟨g, hg, hfound, hpasses⟩ | ⟨hnot, hfails, -⟩
  · refine .inl ⟨[g], hfound, hpasses, ?_⟩
    rw [hpasses.ahead_eq, List.singleton_append, one, if_pos hg]
    rfl
  · exact .inr ⟨hfails, one_eq_none hnot⟩

theorem restores_accept (p : Nat → Bool) : Restores (accept p) := by
  intro input h hfails
  rcases accept_spec p input h with ⟨g, -, hfound, -⟩ | ⟨-, -, hsame⟩
  · rw [hfound] at hfails
    cases hfails
  · exact hsame

theorem follows_acceptAll (p : Nat → Bool) : Follows (acceptAll p) (many1 p) := by
  intro input h
  obtain ⟨hfound, hpasses⟩ := acceptAll_spec p input h
  by_cases hzero : run p (ahead input h) = 0
  · exact .inr ⟨by simp [hfound, hzero], by simp [many1, hzero]⟩
  · refine .inl ⟨_, by simp [hfound, hzero], hpasses, ?_⟩
    rw [length_take_run]
    simp [many1, hzero]

theorem restores_acceptAll (p : Nat → Bool) : Restores (acceptAll p) := by
  intro input h hfails
  obtain ⟨hfound, hpasses⟩ := acceptAll_spec p input h
  have hzero : run p (ahead input h) = 0 := by simpa [hfound] using hfails
  rw [hpasses.current_eq, hzero]
  rfl

/-- One reading after another follows one scanner after another. -/
theorem Follows.and (ha : Follows a s) (hb : Follows b t) : Follows (a <&&> b) (both s t) := by
  intro input h
  rw [and_eq]
  rcases ha input h with ⟨w, hfound, hpasses, hs⟩ | ⟨hfails, hs⟩
  · rw [if_pos hfound, both, hs, Option.bind_some, hpasses.drop]
    exact .after hpasses (hb input _)
  · refine .inr ⟨by rw [hfails]; rfl, ?_⟩
    rw [both, hs]
    rfl

/-- One of two readings follows one of two scanners, if the first puts the cursor back. -/
theorem Follows.or (ha : Follows a s) (hrestores : Restores a) (hb : Follows b t) :
    Follows (a <||> b) (either s t) := by
  intro input h
  rw [orM, bind_eq]
  rcases ha input h with ⟨w, hfound, hpasses, hs⟩ | ⟨hfails, hs⟩
  · rw [hfound]
    refine .inl ⟨w, rfl, hpasses, ?_⟩
    rw [either, hs]
    rfl
  · have hahead : ahead input (a input h).2 = ahead input h :=
      ahead_of_current (hrestores input h hfails)
    have heither : either s t (ahead input h) = t (ahead input h) := by
      rw [either, hs, Option.none_or]
    rw [hfails, heither, ← hahead]
    rcases hb input (a input h).2 with ⟨v, hfound', hpasses', ht⟩ | ⟨hfails', ht⟩
    · exact .inl ⟨v, hfound', (Passes.stays (hrestores input h hfails)).trans hpasses', ht⟩
    · exact .inr ⟨hfails', ht⟩

theorem optionally_eq (r : Reading Bool) (input : Text) (h : Head) :
    optionally r input h = (true, (r input h).2) := rfl

theorem Follows.optionally (hr : Follows r s) (hrestores : Restores r) :
    Follows (optionally r) (optional s) := by
  intro input h
  rw [optionally_eq]
  rcases hr input h with ⟨w, -, hpasses, hs⟩ | ⟨hfails, hs⟩
  · refine .inl ⟨w, rfl, hpasses, ?_⟩
    rw [optional, hs]
    rfl
  · refine .inl ⟨[], rfl, .stays (hrestores input h hfails), ?_⟩
    rw [optional, hs]
    rfl

theorem restoring_eq (r : Reading Bool) (input : Text) (h : Head) : restoring r input h =
    if (r input h).1 then (true, (r input h).2) else (false, ⟨h.current, (r input h).2.width⟩) := by
  show (if (r input h).1 then (pure true : Reading Bool) else _) input (r input h).2 = _
  split <;> rfl

theorem Follows.restoring (hr : Follows r s) : Follows (restoring r) s := by
  intro input h
  rw [restoring_eq]
  rcases hr input h with ⟨w, hfound, hpasses, hs⟩ | ⟨hfails, hs⟩
  · rw [if_pos hfound]
    exact .inl ⟨w, rfl, hpasses, hs⟩
  · rw [hfails]
    exact .inr ⟨rfl, hs⟩

theorem restores_restoring (r : Reading Bool) : Restores (restoring r) := by
  intro input h hfails
  rw [restoring_eq] at hfails ⊢
  split at hfails
  · cases hfails
  · rename_i hnot
    rw [if_neg hnot]

theorem restores_and_optionally (hrestores : Restores a) :
    Restores (a <&&> Reading.optionally b) := by
  intro input h hfails
  rw [and_eq, optionally_eq] at hfails ⊢
  split at hfails
  · cases hfails
  · rename_i hnot
    rw [if_neg hnot]
    exact hrestores input h (by simpa using hnot)

/-- So many characters of a class, one after another. -/
theorem follows_acceptTimes (p : Nat → Bool) (n : Nat) :
    Follows (acceptTimes p n) (exactly p n) := by
  induction n with
  | zero => exact fun input h => .inl ⟨[], rfl, .stays rfl, rfl⟩
  | succ n ih =>
    refine ((follows_accept p).and ih).congr fun gs => ?_
    cases gs with
    | nil => simp [both, one, exactly, run]
    | cons g gs =>
      by_cases hg : p g.code = true
      · by_cases hn : run p (gs.take n) = n
        · simp [both, one, exactly, run, hg, hn, Nat.add_comm]
        · simp [both, one, exactly, run, hg, hn]
      · simp [both, one, exactly, run, hg]

/-- At least one of up to a number of characters of a class. -/
theorem follows_count (p : Nat → Bool) (n : Nat) :
    Follows ((· != 0) <$> count p (n + 1)) (parts [one p, upTo p n]) := by
  intro input h
  obtain ⟨hcount, hpasses⟩ := count_spec p (n + 1) input h
  have hmap : ((· != 0) <$> count p (n + 1) : Reading Bool) input h =
    ((count p (n + 1) input h).1 != 0, (count p (n + 1) input h).2) := rfl
  rw [hmap, hcount]
  have hparts : parts [one p, upTo p n] (ahead input h) =
      if run p ((ahead input h).take (n + 1)) = 0 then none
      else some (run p ((ahead input h).take (n + 1))) := by
    rw [parts, List.foldr_cons, List.foldr_cons, List.foldr_nil]
    cases ahead input h with
    | nil => rfl
    | cons g gs => by_cases hg : p g.code = true <;> simp [both, one, upTo, run, hg, Nat.add_comm]
  by_cases hzero : run p ((ahead input h).take (n + 1)) = 0
  · exact .inr ⟨by simp [hzero], by rw [hparts, if_pos hzero]⟩
  · refine .inl ⟨_, by simp [hzero], hpasses, ?_⟩
    have hle := run_le p ((ahead input h).take (n + 1))
    rw [hparts, if_neg hzero, List.length_take, Nat.min_eq_left]
    rw [List.length_take] at hle
    omega

theorem restores_or (ha : Restores a) (hb : Restores b) : Restores (a <||> b) := by
  intro input h hfails
  rw [orM, bind_eq] at hfails ⊢
  cases hfound : (a input h).1 with
  | true =>
    rw [hfound] at hfails
    cases hfails
  | false =>
    rw [hfound] at hfails
    exact (hb input _ hfails).trans (ha input h hfound)

theorem Follows.last (hr : Follows r s) : Follows r (both s fun _ => some 0) :=
  hr.congr fun gs => (both_nothing s gs).symm

theorem follows_integerSuffix : Follows acceptIntegerSuffix integerSuffix := by
  refine Follows.optionally (.or ?_ ?_ ?_) ?_
  · exact (follows_accept _).and ((follows_accept _).optionally (restores_accept _))
  · exact restores_and_optionally (restores_accept _)
  · exact (follows_accept _).and ((follows_accept _).optionally (restores_accept _))
  · exact restores_or (restores_and_optionally (restores_accept _))
      (restores_and_optionally (restores_accept _))

theorem follows_integer : Follows scanInteger Lexical.scanInteger :=
  (follows_acceptAll _).and follows_integerSuffix

theorem follows_hex : Follows scanHex Lexical.scanHex :=
  (follows_accept _).and ((follows_accept _).and
    ((follows_acceptAll _).and follows_integerSuffix.last))

theorem follows_exponent : Follows acceptExponent exponent :=
  .restoring ((follows_accept _).and (((follows_accept _).optionally (restores_accept _)).and
    (follows_count _ _)))

theorem acceptEnding_eq :
    acceptEnding =
      ((acceptExponent <&&> optionally (accept isRealSuffix)) <||> accept isRealSuffix) := by
  funext input h
  rw [acceptEnding, bind_eq, bind_eq, orM, bind_eq, and_eq, optionally_eq]
  cases (acceptExponent input h).1 with
  | true => exact Prod.ext (Bool.or_true _) rfl
  | false => exact Prod.ext (Bool.or_false _) rfl

theorem follows_ending : Follows acceptEnding
    (either (both exponent (optional realSuffix)) realSuffix) := by
  rw [acceptEnding_eq]
  exact .or (follows_exponent.and ((follows_accept _).optionally (restores_accept _)))
    (restores_and_optionally (restores_restoring _)) (follows_accept _)

theorem follows_pointed :
    Follows (acceptAll Text.isAsciiDigit <&&> optionally acceptExponent <&&> optionally
      (accept isRealSuffix))
      (parts [many1 Text.isAsciiDigit, optional exponent, optional realSuffix]) :=
  (follows_acceptAll _).and ((follows_exponent.optionally (restores_restoring _)).and
    ((follows_accept _).optionally (restores_accept _)).last)

theorem follows_real (o : Options) : Follows (scanReal o) (Lexical.scanReal o) := by
  intro input h
  obtain ⟨hwhole, hpasses⟩ := acceptAll_spec Text.isAsciiDigit input h
  have hlength := length_take_run Text.isAsciiDigit (ahead input h)
  have hrest := hpasses.drop
  rw [hlength] at hrest
  rw [scanReal, bind_eq, bind_eq, Lexical.scanReal, hwhole, hrest]
  generalize acceptAll Text.isAsciiDigit input h = digits at hpasses hrest ⊢
  generalize run Text.isAsciiDigit (ahead input h) = whole at hpasses hlength hrest ⊢
  have hnone : (!(whole != 0)) = (whole == 0) := Bool.not_not _
  rw [hnone]
  rcases accept_spec (· == o.decimalPoint) input digits.2 with
    ⟨g, hg, hfound, hpoint⟩ | ⟨hnot, hfails, hsame⟩
  · have hone : one (· == o.decimalPoint) (ahead input digits.2) = some 1 := by
      rw [hpoint.ahead_eq, List.singleton_append, one, if_pos hg]
    have hafter : ahead input digits.2 = [g] ++
        ahead input (accept (· == o.decimalPoint) input digits.2).2 :=
      hpoint.ahead_eq
    rw [hfound, hone, if_pos rfl, Option.isSome_some, if_pos rfl, hafter,
      List.singleton_append, List.drop_one, List.tail_cons]
    split
    · exact .inr ⟨rfl, rfl⟩
    · have hboth := Matches.after (hpasses.trans hpoint) (follows_pointed input _)
      rw [List.length_append, hlength] at hboth
      exact hboth
  · rw [hfails, one_eq_none hnot, if_neg Bool.false_ne_true, Option.isSome_none,
      if_neg Bool.false_ne_true]
    split
    · exact .inr ⟨rfl, rfl⟩
    · have hboth := Matches.after (hpasses.trans (.stays hsame)) (follows_ending input _)
      rw [List.append_nil, hlength, ahead_of_current hsame] at hboth
      exact hboth

theorem follows_escape : Follows acceptEscape escape := by
  intro input h
  rw [acceptEscape, bind_eq]
  rcases nextRune_spec input h with ⟨hnil, hnone, -⟩ | ⟨g, hsome, hpasses⟩
  · rw [hnone, hnil]
    exact .inr ⟨rfl, rfl⟩
  · rw [hsome, hpasses.ahead_eq, List.singleton_append]
    have hescape : ∀ gs, escape (g :: gs) = if [0x5C, 0x22, 0x27, 0x74, 0x72, 0x6E].contains
      g.code then some 1
        else if isEither 'u' g.code then (exactly isHexDigit 4 gs).map (1 + ·) else none := by
      intro gs
      rw [escape, either, one, both, one]
      by_cases hshort : [0x5C, 0x22, 0x27, 0x74, 0x72, 0x6E].contains g.code = true
      · rw [if_pos hshort, if_pos hshort, Option.some_or]
      · rw [if_neg hshort, if_neg hshort, Option.none_or]
        split <;> rfl
    rw [hescape]
    dsimp only
    split
    · exact .inl ⟨[g], rfl, hpasses, rfl⟩
    · split
      · exact .after hpasses (follows_acceptTimes _ _ input _)
      · exact .inr ⟨rfl, rfl⟩

theorem follows_string_body : Follows acceptString (stringBody 0) := by
  intro input h
  fun_induction acceptString input h with
  | case1 h h' hnext =>
    rw [ahead_of_nextRune hnext]
    exact .inr ⟨rfl, rfl⟩
  | case2 h c h' hnext hquote =>
    obtain ⟨g, rfl, hpasses⟩ := passes_of_nextRune hnext
    rw [hpasses.ahead_eq, List.singleton_append, stringBody, if_pos hquote]
    exact .inl ⟨[g], rfl, hpasses, rfl⟩
  | case3 h c h' hnext hquote hslash hfound ih =>
    obtain ⟨g, rfl, hpasses⟩ := passes_of_nextRune hnext
    obtain ⟨w, -, hescape, htaken⟩ := (follows_escape input h').resolve_right fun hnot => by
      simp [hnot.1] at hfound
    rw [hpasses.ahead_eq, List.singleton_append, stringBody, if_neg hquote, if_pos hslash, htaken]
    dsimp only
    rw [stringBody_skip, hescape.drop, Option.map_map]
    have hboth := Matches.after (hpasses.trans hescape) ih
    rw [List.length_append] at hboth
    exact (funext
      fun n => by simp; omega : ((· + 1) ∘ (w.length + ·)) = ([g].length + w.length + ·)) ▸ hboth
  | case4 h c h' hnext hquote hslash hfails =>
    obtain ⟨g, rfl, hpasses⟩ := passes_of_nextRune hnext
    have hnone := ((follows_escape input h').resolve_left fun ⟨_, hfound, _⟩ => hfails hfound).2
    rw [hpasses.ahead_eq, List.singleton_append, stringBody, if_neg hquote, if_pos hslash, hnone]
    exact .inr ⟨rfl, rfl⟩
  | case5 h c h' hnext hquote hslash hline =>
    obtain ⟨g, rfl, hpasses⟩ := passes_of_nextRune hnext
    rw [hpasses.ahead_eq, List.singleton_append, stringBody, if_neg hquote,
      if_neg hslash, if_pos hline]
    exact .inr ⟨rfl, rfl⟩
  | case6 h c h' hnext hquote hslash hline ih =>
    obtain ⟨g, rfl, hpasses⟩ := passes_of_nextRune hnext
    rw [hpasses.ahead_eq, List.singleton_append, stringBody, if_neg hquote,
      if_neg hslash, if_neg hline]
    have hboth := Matches.after hpasses ih
    exact (funext fun n => Nat.add_comm 1 n : (1 + ·) = (· + 1)) ▸ hboth

theorem follows_string : Follows scanString Lexical.scanString :=
  (follows_accept _).and follows_string_body

theorem follows_character : Follows acceptCharacter
    (either (both (mark '\\') escape) (one fun c => c != 0x5C && c != 0x27 && !isLineEnd c)) := by
  intro input h
  rw [acceptCharacter, bind_eq]
  rcases nextRune_spec input h with ⟨hnil, hnone, -⟩ | ⟨g, hsome, hpasses⟩
  · rw [hnone, hnil]
    exact .inr ⟨rfl, rfl⟩
  · rw [hsome, hpasses.ahead_eq, List.singleton_append, either, both, mark, one, one]
    dsimp only
    by_cases hslash : (g.code == 0x5C) = true
    · rw [if_pos hslash, if_pos (show (g.code == '\\'.toNat) = true from hslash), Option.bind_some,
        List.drop_one, List.tail_cons]
      have hboth := Matches.after hpasses (follows_escape input _)
      have hnot : ¬ (g.code != 0x5C && g.code != 0x27 && !isLineEnd g.code) = true := by
        simp [beq_iff_eq.1 hslash]
      rw [if_neg hnot, Option.or_none]
      exact hboth
    · have hother : (g.code != 0x5C) = true := by simpa using hslash
      rw [if_neg hslash, if_neg (show ¬ (g.code == '\\'.toNat) = true from hslash),
        Option.bind_none, Option.none_or, hother, Bool.true_and]
      cases hplain : g.code != 0x27 && !isLineEnd g.code with
      | true => exact .inl ⟨[g], rfl, hpasses, rfl⟩
      | false => exact .inr ⟨rfl, rfl⟩

theorem follows_char : Follows scanChar Lexical.scanChar :=
  (follows_accept _).and (follows_character.and (follows_accept _).last)

theorem follows_dateTime : Follows scanDateTime Lexical.scanDateTime :=
  (follows_accept _).and ((follows_acceptAll _).and (follows_accept _).last)

theorem follows_many (p : Nat → Bool) : Follows (optionally (acceptAll p)) (many p) := by
  refine ((follows_acceptAll p).optionally (restores_acceptAll p)).congr fun gs => ?_
  rw [optional, many1, many]
  split
  · rename_i hzero
    rw [beq_iff_eq.1 hzero]
    rfl
  · rfl

theorem follows_identifier : Follows scanIdentifier Lexical.scanIdentifier :=
  ((follows_accept _).optionally (restores_accept _)).and
    ((follows_accept _).and (follows_many _).last)

theorem and_assoc (a b c : Reading Bool) : ((a <&&> b) <&&> c) = (a <&&> (b <&&> c)) := by
  funext input h
  rw [and_eq, and_eq, and_eq]
  cases (a input h).1 with
  | true => rw [if_pos rfl, if_pos rfl, and_eq]
  | false => rfl

theorem both_assoc (s t u : Scanner) (gs : List Glyph) :
    both (both s t) u gs = both s (both t u) gs := by
  rw [both, both, both]
  cases s gs with
  | none => rfl
  | some n =>
    rw [Option.bind_some, Option.bind_some, both]
    cases t (gs.drop n) with
    | none => rfl
    | some m =>
      simp [List.drop_drop, Function.comp_def, Nat.add_assoc]

/-- A part that is bound to go on once its first character is there. It follows one that may be
missing, if what comes after it does not start with this character. -/
theorem Follows.committed {c : Reading Bool} {u : Scanner} (hbc : Follows (b <&&> c) (both s u))
    (hc : Follows c u) (hapart : ∀ g gs, p g.code = true → u (g :: gs) = none) :
    Follows ((do if ← accept p then b else return true) <&&> c)
      (both (optional (both (one p) s)) u) := by
  intro input h
  rw [and_eq, bind_eq]
  rcases accept_spec p input h with ⟨g, hg, hfound, hpasses⟩ | ⟨hnot, hfails, hsame⟩
  · have hboth : ∀ gs, both (optional (both (one p) s)) u (g :: gs) =
      (both s u gs).map (1 + ·) := by
      intro gs
      rw [both, optional, both, one, if_pos hg, Option.bind_some, Option.bind_some, List.drop_one,
        List.tail_cons, both]
      cases s gs with
      | none => simp [hapart g gs hg]
      | some n =>
        rw [Option.map_some, Option.getD_some, Nat.add_comm 1 n, List.drop_succ_cons,
          Option.bind_some, Option.map_map]
        exact congrArg (Option.map · _) (funext fun m => by simp; omega)
    rw [hfound, if_pos rfl, hpasses.ahead_eq, List.singleton_append, hboth, ← and_eq]
    exact .after hpasses (hbc input _)
  · have hnone : both (optional (both (one p) s)) u (ahead input h) = u (ahead input h) := by
      rw [both, optional, both, one_eq_none hnot]
      simp
    rw [hfails, hnone, ← ahead_of_current hsame]
    exact .of_current hsame (hc input _)

theorem mark_apart {c d : Char} (hne : c.toNat ≠ d.toNat) (g : Glyph) (gs : List Glyph)
    (hg : (g.code == c.toNat) = true) :
    mark d (g :: gs) = none := by
  rw [mark, one, if_neg fun heq => hne ((beq_iff_eq.1 hg).symm.trans (beq_iff_eq.1 heq))]

theorem follows_fraction : Follows (acceptFraction <&&> acceptRune '#')
    (both (optional (parts [mark '.', one Text.isAsciiDigit, upTo Text.isAsciiDigit 6]))
      (mark '#')) :=
  .committed ((follows_count _ _).and (follows_accept _)) (follows_accept _)
    (mark_apart (by decide))

theorem follows_seconds : Follows (acceptSeconds <&&> acceptRune '#')
    (both (optional (parts [mark ':', exactly Text.isAsciiDigit 2,
      optional (parts [mark '.', one Text.isAsciiDigit, upTo Text.isAsciiDigit 6])]))
        (mark '#')) := by
  refine .committed ?_ (follows_accept _) (mark_apart (by decide))
  rw [and_assoc]
  refine ((follows_acceptTimes _ _).and follows_fraction).congr fun gs => ?_
  rw [List.foldr_cons, List.foldr_cons, List.foldr_nil, both_assoc, funext (both_nothing _)]

theorem follows_timeSpan : Follows scanTimeSpan Lexical.scanTimeSpan := by
  have hdays : Follows (optionally (restoring (acceptAll Text.isAsciiDigit <&&> acceptRune '.')))
      (optional (both (many1 Text.isAsciiDigit) (mark '.'))) :=
    .optionally (.restoring ((follows_acceptAll _).and (follows_accept _))) (restores_restoring _)
  have hend := follows_seconds
  rw [← funext (both_nothing (mark '#'))] at hend
  exact (follows_accept _).and ((follows_accept _).and (hdays.and ((follows_acceptTimes _ 2).and
    ((follows_accept _).and ((follows_acceptTimes _ 2).and hend)))))

theorem follows_scanners (o : Options) : List.Forall₂ (fun r s => r.1 = s.1 ∧ Follows r.2 s.2)
    (scanners o) (Lexical.scanners o) :=
  .cons ⟨rfl, follows_hex⟩ (.cons ⟨rfl, follows_real o⟩
    (.cons ⟨rfl, follows_integer⟩ (.cons ⟨rfl, follows_string⟩
    (.cons ⟨rfl, follows_char⟩ (.cons ⟨rfl, follows_timeSpan⟩ (.cons ⟨rfl, follows_dateTime⟩
      (.cons ⟨rfl, follows_identifier⟩ .nil)))))))

end Reading

end Lexical

end Formulary
