import Formulary.Proofs.Grammar.Acceptance
import Formulary.Proofs.Grammar.Stream
import Formulary.Proofs.Lexical.Tiling

/-!
# Tokens one at a time, and the log of a parse

A parser has one token in view and collects the problems of the characters on the way to it. It is
given all lexemes of the text, which is the same as if it asked the lexer for one token after
another (`feed_call`).

So stray characters are noted when a parser looks for its next token, one token ahead of the
grammar, and a token that does not fit is reported at most once in three tokens. Both go into one
log. Main statement: the log of a text that does not parse is complete and in the order of the text
(`parse_logged`). It follows from what a state has noted so far (`Logged`), which passing a token
and reporting one keep, and so does everything that a parser does (`parseRule_keeps`).
-/

namespace Formulary.Grammar

open Lexical (Kind Lexeme Lexer Lossless Place Problem ProblemKind Rising Tiled Token)

namespace State

section Pulled

variable (last : Token) (ls : List Lexeme) (problems : List Problem)

/-- What is pulled into view is the first token, with the others behind it, and the problems before
it are noted. -/
theorem pull_eq :
    (pull last ls problems).1 = (ls.filterMap Lexeme.token?)[0]?.getD last ∧
      (pull last ls problems).2.1.filterMap Lexeme.token? = (ls.filterMap Lexeme.token?).drop 1 ∧
      (pull last ls problems).2.2.reverse ++ (pull last ls problems).2.1.filterMap Lexeme.problem? =
        problems.reverse ++ ls.filterMap Lexeme.problem? ∧
      (ls.filterMap Lexeme.token? = [] → (pull last ls problems).2.1 = []) := by
  induction ls generalizing problems with
  | nil => exact ⟨rfl, rfl, rfl, fun _ => rfl⟩
  | cons x ls ih =>
    cases x with
    | token t => exact ⟨rfl, rfl, rfl, nofun⟩
    | stray code place =>
      obtain ⟨hnext, hrest, hproblems, hend⟩ := ih (.stray code place :: problems)
      refine ⟨hnext, hrest, hproblems.trans ?_, hend⟩
      rw [List.reverse_cons, List.append_assoc]
      rfl

end Pulled

end State

/-- The state of a parser that asked for so many tokens of a text after the first. -/
def feed (l : Lexer) (text : Text) : Nat → State
  | 0 => .start (l.read text).1 (l.read text).2
  | n + 1 => (feed l text n).advance

section Feed

open Lexical (Cursor placeOf)

variable {l : Lexer} {text : Text} {c : Cursor} {a b : List Text.Glyph}

theorem pull_reports (last : Token) (reports : List (Nat × Place)) (ls : List Lexeme)
    (problems : List Problem) :
    State.pull last (reports.map Lexeme.ofReport ++ ls) problems =
      State.pull last ls ((reports.map Problem.ofReport).reverse ++ problems) := by
  induction reports generalizing problems with
  | nil => rfl
  | cons e reports ih =>
    rw [List.map_cons (f := Problem.ofReport), List.reverse_cons, List.append_assoc]
    exact ih _

/-- What is pulled from the lexemes that are left is what the next call gives. -/
theorem pull_next (hc : c.Stands l text a) (hglyphs : text.glyphs = a ++ b)
    {problems : List Problem} (hproblems : problems.reverse = c.problems) :
    ∃ a' b', text.glyphs = a' ++ b' ∧ c.next.2.Stands l text a' ∧ ∃ problems',
      problems'.reverse = c.next.2.problems ∧
      State.pull ⟨.eof, [], placeOf text.glyphs⟩ (l.lexemes (placeOf a) b).1 problems =
        (c.next.1, (l.lexemes (placeOf a') b').1, problems') := by
  obtain ⟨reports, hlog, hnext⟩ := hc.next hglyphs
  have hsofar : ((reports.map Problem.ofReport).reverse ++ problems).reverse =
      c.next.2.problems := by
    rw [List.reverse_append, List.reverse_reverse, hproblems, Cursor.problems, Cursor.problems,
      hlog, List.map_append]
  rcases hnext with ⟨htoken, hstands, hlexemes⟩ | ⟨a', b', -, hsplit, hstands, hlexemes⟩
  · refine ⟨_, [], (List.append_nil _).symm, hstands, _, hsofar, ?_⟩
    rw [hlexemes, htoken, ← List.append_nil (List.map ..), pull_reports, Lexer.lexemes]
    rfl
  · refine ⟨a', b', hsplit, hstands, _, hsofar, ?_⟩
    rw [hlexemes, pull_reports]
    rfl

/-- Reading all of a text first makes no difference to a parser: what it has in view and what has
been reported is as if it asked for one token after another. -/
theorem feed_call (l : Lexer) (text : Text) (n : Nat) :
    (feed l text n).next = ((l.reset text).call n).1 ∧
      (feed l text n).problems.reverse = ((l.reset text).call n).2.problems := by
  suffices h : ∃ a b, text.glyphs = a ++ b ∧ ((l.reset text).call n).2.Stands l text a ∧
      (feed l text n).last = ⟨.eof, [], placeOf text.glyphs⟩ ∧
        (feed l text n).rest = (l.lexemes (placeOf a) b).1 ∧
      (feed l text n).next = ((l.reset text).call n).1 ∧
      (feed l text n).problems.reverse = ((l.reset text).call n).2.problems by
    obtain ⟨-, -, -, -, -, -, hnext, hproblems⟩ := h
    exact ⟨hnext, hproblems⟩
  induction n with
  | zero =>
    have hlast : (l.lexemes {} text.glyphs).2 = placeOf text.glyphs :=
      (Lexical.lexemes_tiled l {} text.glyphs).last_eq
    have hnone : ([] : List Problem).reverse = (l.reset text).problems := rfl
    obtain ⟨a, b, hsplit, hstands, problems, hproblems, hpull⟩ :=
      pull_next (Cursor.stands_reset l text) rfl hnone
    rw [feed, Lexical.read_eq, Lexer.outline, State.start, hlast]
    exact ⟨a, b, hsplit, hstands, rfl, congrArg (·.2.1) hpull, congrArg (·.1) hpull,
      (congrArg (·.2.2.reverse) hpull).trans hproblems⟩
  | succ n ih =>
    obtain ⟨a, b, hsplit, hstands, hlast, hrest, -, hproblems⟩ := ih
    obtain ⟨a', b', hsplit', hstands', problems, hproblems', hpull⟩ :=
      pull_next hstands hsplit hproblems
    rw [← hrest, ← hlast] at hpull
    exact ⟨a', b', hsplit', hstands', hlast, congrArg (·.2.1) hpull, congrArg (·.1) hpull,
      (congrArg (·.2.2.reverse) hpull).trans hproblems'⟩

end Feed

structure Kept (separator : Nat) (P : State → Prop) : Prop where
  advance : ∀ s, P s → s.next.kind ≠ .eof → P s.advance
  report : ∀ s expected, P s → P (s.report separator expected)

/-- A grammar in which no element asks for the end. -/
def Ready.Inner (g : Ready) : Prop :=
  ∀ r ∈ g.rules, ∀ a ∈ r.alternatives, ∀ e ∈ a.elements, e.element.target ≠ .token .eof

section Kept

variable {g : Ready} {separator : Nat} {P : State → Prop}
  {parse : ReadyRule → State → Outcome (Option Tree)}

theorem Kept.skip (h : Kept separator P) {s : State} (hs : P s) : P s.skip := by
  unfold State.skip
  split
  · exact hs
  · rename_i hne
    exact h.advance s hs (by simpa using hne)

theorem Ready.mem_of_rule? {id : Nat} {r : ReadyRule} (h : g.rule? id = some r) : r ∈ g.rules :=
  List.mem_reverse.1 (List.mem_of_find?_eq_some h)

/-- The loop over an element keeps what passing and reporting keep. -/
theorem parseElement_keeps (h : Kept separator P)
    (hparse : ∀ r ∈ g.rules, ∀ s t s', parse r s = .ok (t, s') → P s → P s') {e : ReadyElement}
    (inner : e.element.target ≠ .token .eof) {fuel n : Nat}
    {children children' : List Tree} {s s' : State}
    (hrun : parseElement g separator parse e fuel n children s = .ok (children', s'))
    (hs : P s) : P s' := by
  induction fuel generalizing n children s with
  | zero =>
    cases hrun
    exact hs
  | succ fuel ih =>
    rw [parseElement] at hrun
    split at hrun
    · cases hrun
      exact hs
    · split at hrun
      · rename_i k hk
        split at hrun
        · rename_i hnext
          have hne : s.next.kind ≠ .eof := by
            rw [beq_iff_eq.1 hnext]
            rintro rfl
            exact inner hk
          exact ih hrun (h.advance s hs hne)
        · cases hrun
          exact h.skip (h.report s _ hs)
      · split at hrun
        · cases hrun
          exact hs
        · rename_i rule hrule
          have hmem := Ready.mem_of_rule? hrule
          split at hrun
          · cases hrun
          · rename_i hone
            cases hrun
            exact hparse _ hmem _ _ _ hone hs
          · rename_i hone
            have hkept := hparse _ hmem _ _ _ hone hs
            simp only at hrun
            split at hrun
            · cases hrun
              exact hkept
            · exact ih hrun hkept

theorem parseElements_keeps (h : Kept separator P)
    (hparse : ∀ r ∈ g.rules, ∀ s t s', parse r s = .ok (t, s') → P s → P s')
    {es : List ReadyElement}
    (inner : ∀ e ∈ es, e.element.target ≠ .token .eof) {children children' : List Tree}
    {s s' : State} (hrun : parseElements g separator parse es children s = .ok (children', s'))
    (hs : P s) : P s' := by
  induction es generalizing children s with
  | nil =>
    cases hrun
    exact hs
  | cons e es ih =>
    rw [parseElements] at hrun
    split at hrun
    · cases hrun
    · rename_i hone
      exact ih (fun x hx => inner x (List.mem_cons_of_mem e hx)) hrun
        (parseElement_keeps h hparse (inner e List.mem_cons_self) hone hs)

/-- What passing a token and reporting one keep, parsing a rule keeps. -/
theorem parseRule_keeps (h : Kept separator P) (inner : g.Inner) {depth : Nat} {r : ReadyRule}
    (hr : r ∈ g.rules)
    {t : Option Tree} {s s' : State} (hrun : parseRule g separator depth r s = .ok (t, s'))
    (hs : P s) : P s' := by
  induction depth generalizing r t s s' with
  | zero => cases hrun
  | succ depth ih =>
    rw [parseRule] at hrun
    split at hrun
    · cases hrun
      exact h.skip (h.report s _ hs)
    · rename_i a ha
      have hmem : a ∈ r.alternatives := by
        unfold chooseAlternative at ha
        split at ha
        · rename_i hfind
          cases ha
          exact List.mem_of_find?_eq_some hfind
        · exact (List.mem_filter.1 (List.mem_of_getLast? ha)).1
      split at hrun
      · cases hrun
      · rename_i hone
        cases hrun
        exact parseElements_keeps h (fun q hq s t s' hq' => ih hq hq') (inner r hr a hmem) hone hs

end Kept

theorem expressionReady_inner : expressionReady.Inner := by
  have hrules : ∀ r ∈ expressionRules, ∀ es ∈ r.alternatives, ∀ e ∈ es,
    e.target ≠ .token .eof := by decide
  intro r hr a ha e he
  obtain ⟨rule, hrule, rfl⟩ := List.mem_map.1 hr
  obtain ⟨es, hes, rfl⟩ := List.mem_map.1 ha
  obtain ⟨x, hx, rfl⟩ := List.mem_map.1 he
  exact hrules rule hrule es hes x hx

/-- Reports on a text with some tokens, the last one first: each is about a token or about the end,
and three tokens stand between one and the next. The next one may be about the token with a number
from `n` on. -/
inductive Reports (ts : List Token) (last : Token) : Nat → List Problem → Prop
  | none {n : Nat} : Reports ts last n []
  | report {i n : Nat} {e : Problem} {es : List Problem} (h : Reports ts last i es) (hn : i + 3 ≤ n)
    (hi : i ≤ ts.length) (hplace : e.place = (ts[i]?.getD last).place)
    (hkind : e.kind = if i < ts.length then .unexpectedToken else .unexpectedEnd) :
    Reports ts last n (e :: es)

section Reports

variable {ts : List Token} {last : Token} {n m : Nat} {e : Problem} {es : List Problem}

theorem Reports.mono (h : Reports ts last n es) (hle : n ≤ m) : Reports ts last m es := by
  cases h with
  | none => exact .none
  | report h hn hi hplace hkind => exact .report h (Nat.le_trans hn hle) hi hplace hkind

theorem Reports.of_mem (h : Reports ts last n es) (he : e ∈ es) :
    ∃ i, i + 3 ≤ n ∧ i ≤ ts.length ∧ e.place = (ts[i]?.getD last).place ∧
      e.kind = if i < ts.length then .unexpectedToken else .unexpectedEnd := by
  induction h with
  | none => cases he
  | @report i n e' es _ hn hi hplace hkind ih =>
    rcases List.mem_cons.1 he with rfl | he
    · exact ⟨i, hn, hi, hplace, hkind⟩
    · obtain ⟨j, hj, hrest⟩ := ih he
      exact ⟨j, by omega, hrest⟩

end Reports

/-- Whether a problem is a character that belongs to no token. -/
def isStray (e : Problem) : Bool := e.kind == .unexpectedChar

structure Logged (ls : List Lexeme) (last : Token) (front : List Lexeme) (s : State) : Prop where
  stop : s.last = last
  split : ls = front ++ s.upcoming
  quiet : s.quiet ≤ 3
  strays : (s.problems.filter isStray).reverse = front.filterMap Lexeme.problem?
  sorted : s.problems.Pairwise fun e f => f.place.offset < e.place.offset
  reports : Reports (ls.filterMap Lexeme.token?) last
    ((front.filterMap Lexeme.token?).length + s.quiet)
    (s.problems.filter (!isStray ·))

section Order

variable {ls front : List Lexeme} {last : Token} {s : State}

theorem offset_of_problem? {x : Lexeme} {e : Problem} (h : x.problem? = some e) :
    e.place.offset = x.offset := by
  obtain ⟨code, place, rfl, rfl⟩ := Lexeme.problem?_eq_some.1 h
  rfl

theorem isStray_of_problem? {x : Lexeme} {e : Problem} (h : x.problem? = some e) :
    isStray e = true := by
  obtain ⟨code, place, rfl, rfl⟩ := Lexeme.problem?_eq_some.1 h
  rfl

theorem isStray_of_mem {e : Problem} (he : e ∈ (ls.filterMap Lexeme.problem?).reverse) :
    isStray e = true := by
  obtain ⟨x, -, hx⟩ := List.mem_filterMap.1 (List.mem_reverse.1 he)
  exact isStray_of_problem? hx

/-- Problems of lexemes are in the order of the lexemes. -/
theorem sorted_problems (h : ls.Pairwise fun x y => x.offset < y.offset) :
    (ls.filterMap Lexeme.problem?).reverse.Pairwise fun e f => f.place.offset < e.place.offset := by
  refine List.pairwise_reverse.2 (List.Pairwise.filterMap _ (fun x y hxy e he f hf => ?_) h)
  rw [offset_of_problem? he, offset_of_problem? hf]
  exact hxy

/-- Tokens stand in the order of their numbers, and the end behind them all. -/
theorem offset_lt_of_lt (hrise : Rising 0 last.place.offset ls) {i j : Nat} (hij : i < j)
    (hi : i < (ls.filterMap Lexeme.token?).length) :
    ((ls.filterMap Lexeme.token?)[i]?.getD last).place.offset <
      ((ls.filterMap Lexeme.token?)[j]?.getD last).place.offset := by
  have hmem : ∀ t ∈ ls.filterMap Lexeme.token?, .token t ∈ ls := by
    intro t ht
    obtain ⟨x, hx, htoken⟩ := List.mem_filterMap.1 ht
    exact Lexeme.token?_eq_some.1 htoken ▸ hx
  have hsorted : (ls.filterMap Lexeme.token?).Pairwise fun t u =>
      t.place.offset < u.place.offset := by
    refine List.Pairwise.filterMap _ (fun x y hxy t ht u hu => ?_) hrise.sorted
    rw [Lexeme.token?_eq_some.1 ht, Lexeme.token?_eq_some.1 hu] at hxy
    exact hxy
  rw [List.getElem?_eq_getElem hi, Option.getD_some]
  by_cases hj : j < (ls.filterMap Lexeme.token?).length
  · rw [List.getElem?_eq_getElem hj, Option.getD_some]
    exact List.pairwise_iff_getElem.1 hsorted i j hi hj hij
  · rw [List.getElem?_eq_none (Nat.le_of_not_lt hj), Option.getD_none]
    exact hrise.high _ (hmem _ (List.getElem_mem hi))

/-- The token in view is the one with the number of tokens passed. -/
theorem Logged.next_eq (h : Logged ls last front s) (hs : s.Stream) :
    s.next = (ls.filterMap Lexeme.token?)[(front.filterMap Lexeme.token?).length]?.getD last := by
  rw [h.split, List.filterMap_append, List.getElem?_append_right (Nat.le_refl _), Nat.sub_self]
  by_cases he : s.next.kind = .eof
  · rw [State.upcoming_of_eq he, (hs.finished he).1, h.stop]
    rfl
  · rw [State.upcoming_of_ne he]
    rfl

theorem Logged.passed_le (h : Logged ls last front s) :
    (front.filterMap Lexeme.token?).length ≤ (ls.filterMap Lexeme.token?).length := by
  rw [h.split, List.filterMap_append, List.length_append]
  exact Nat.le_add_right _ _

/-- At the end all tokens are passed, and before it one is left. -/
theorem Logged.passed_lt_iff (h : Logged ls last front s) :
    (front.filterMap Lexeme.token?).length < (ls.filterMap Lexeme.token?).length ↔
      s.next.kind ≠ .eof := by
  rw [h.split, List.filterMap_append, List.length_append]
  by_cases he : s.next.kind = .eof
  · simp [State.upcoming_of_eq he, he]
  · simp [State.upcoming_of_ne he, he, Lexeme.token?]

/-- What is passed stands before the token in view. -/
theorem Logged.front_lt (h : Logged ls last front s) (hs : s.Stream)
    (hrise : Rising 0 last.place.offset ls) :
    ∀ x ∈ front, x.offset < s.next.place.offset := by
  intro x hx
  have hsplit := h.split
  by_cases he : s.next.kind = .eof
  · rw [(hs.finished he).1, h.stop]
    exact hrise.high x (by rw [hsplit]; exact List.mem_append_left _ hx)
  · rw [State.upcoming_of_ne he] at hsplit
    rw [hsplit] at hrise
    exact (List.pairwise_append.1 hrise.sorted).2.2 x hx (.token s.next) List.mem_cons_self

/-- A report on an earlier token stands before the token in view. -/
theorem Logged.report_lt (h : Logged ls last front s) (hs : s.Stream)
    (hrise : Rising 0 last.place.offset ls) {i : Nat}
    (hi : i < (front.filterMap Lexeme.token?).length) :
    ((ls.filterMap Lexeme.token?)[i]?.getD last).place.offset < s.next.place.offset := by
  rw [h.next_eq hs]
  exact offset_lt_of_lt hrise hi (Nat.lt_of_lt_of_le hi h.passed_le)

/-- No problem stands behind the token in view, and one stands there only if it was just
reported. -/
theorem Logged.behind (h : Logged ls last front s) (hs : s.Stream)
    (hrise : Rising 0 last.place.offset ls) :
    ∀ e ∈ s.problems, e.place.offset ≤ s.next.place.offset ∧
      (s.quiet = 0 → e.place.offset < s.next.place.offset) := by
  intro e he
  cases hstray : isStray e with
  | true =>
    have hmem : e ∈ front.filterMap Lexeme.problem? := by
      rw [← h.strays, List.mem_reverse]
      exact List.mem_filter.2 ⟨he, hstray⟩
    obtain ⟨x, hx, hproblem⟩ := List.mem_filterMap.1 hmem
    have hlt := h.front_lt hs hrise x hx
    rw [offset_of_problem? hproblem]
    exact ⟨Nat.le_of_lt hlt, fun _ => hlt⟩
  | false =>
    obtain ⟨i, hin, -, hplace, -⟩ := h.reports.of_mem (List.mem_filter.2 ⟨he, by simp [hstray]⟩)
    have hquiet := h.quiet
    rw [hplace]
    rcases Nat.lt_or_ge i (front.filterMap Lexeme.token?).length with hlt | hge
    · have := h.report_lt hs hrise hlt
      exact ⟨Nat.le_of_lt this, fun _ => this⟩
    · have heq : i = (front.filterMap Lexeme.token?).length := by omega
      rw [heq, ← h.next_eq hs]
      exact ⟨Nat.le_refl _, fun hzero => by omega⟩

/-- What is pulled into view leaves the stray characters before it in the log. -/
theorem State.problems_of_pull {s' : State} {ls front : List Lexeme} {problems : List Problem}
    (hs : (s'.next, s'.rest, s'.problems) = State.pull s'.last ls problems)
    (hfront : ls = front ++ s'.upcoming) (hend : s'.next.kind = .eof → s'.rest = []) :
    s'.problems = (front.filterMap Lexeme.problem?).reverse ++ problems := by
  obtain ⟨-, -, hproblems, -⟩ := State.pull_eq s'.last ls problems
  have hrest : s'.upcoming.filterMap Lexeme.problem? = s'.rest.filterMap Lexeme.problem? := by
    by_cases he : s'.next.kind = .eof
    · rw [State.upcoming_of_eq he, hend he]
    · rw [State.upcoming_of_ne he]
      rfl
  rw [← hs, hfront, List.filterMap_append, hrest, ← List.append_assoc] at hproblems
  have hcancel := List.append_cancel_right hproblems
  dsimp only at hcancel
  rw [← List.reverse_inj, hcancel]
  simp

/-- The log after some more stray characters, which stand behind all that is in it. -/
theorem Logged.strays_append (h : Logged ls last front s) {more : List Lexeme}
    {problems : List Problem}
    (hproblems : problems = (more.filterMap Lexeme.problem?).reverse ++ s.problems) :
    (problems.filter isStray).reverse = front.filterMap Lexeme.problem? ++
      more.filterMap Lexeme.problem? ∧
      problems.filter (!isStray ·) = s.problems.filter (!isStray ·) := by
  have hmore : ∀ e ∈ (more.filterMap Lexeme.problem?).reverse, isStray e = true :=
    fun _ => isStray_of_mem
  rw [hproblems, List.filter_append, List.filter_append, List.filter_eq_self.2 hmore,
    List.reverse_append, List.reverse_reverse, h.strays, List.filter_eq_nil_iff.2 fun e he => by
      simp [hmore e he]]
  exact ⟨rfl, rfl⟩

/-- A token that is passed goes in front, and so do the stray characters behind it. -/
theorem Logged.advance (h : Logged ls last front s) (hs : s.Stream)
    (hrise : Rising 0 last.place.offset ls)
    (hne : s.next.kind ≠ .eof) : ∃ more, Logged ls last
    (front ++ Lexeme.token s.next :: more) s.advance := by
  obtain ⟨more, -, hrest, -, hend⟩ := hs.upcoming_advance
  have hproblems : s.advance.problems = (more.filterMap Lexeme.problem?).reverse ++ s.problems :=
    State.problems_of_pull rfl hrest fun he => (hend he).2
  have hsplit : ls = (front ++ Lexeme.token s.next :: more) ++ s.advance.upcoming := by
    rw [List.append_assoc, List.cons_append, ← hrest, ← State.upcoming_of_ne hne]
    exact h.split
  obtain ⟨hstrays, hreports⟩ := h.strays_append hproblems
  refine ⟨more, h.stop, hsplit, Nat.le_trans (Nat.sub_le _ 1) h.quiet, ?_, ?_, ?_⟩
  · rw [hstrays, List.filterMap_append]
    rfl
  · -- the new ones are in order, and stand behind the token that was passed
    have hbehind : ∀ x ∈ more, s.next.place.offset < x.offset := by
      intro x hx
      rw [hsplit, List.append_assoc] at hrise
      exact (List.pairwise_cons.1 (List.pairwise_append.1 hrise.sorted).2.1).1 x
        (List.mem_append_left _ hx)
    have hmore : more.Pairwise fun x y => x.offset < y.offset := by
      rw [hsplit, List.append_assoc] at hrise
      exact (List.pairwise_append.1 (List.pairwise_cons.1
        (List.pairwise_append.1 hrise.sorted).2.1).2).1
    rw [hproblems]
    refine List.pairwise_append.2 ⟨sorted_problems hmore, h.sorted, fun e he f hf => ?_⟩
    obtain ⟨x, hx, hproblem⟩ := List.mem_filterMap.1 (List.mem_reverse.1 he)
    rw [offset_of_problem? hproblem]
    exact Nat.lt_of_le_of_lt (h.behind hs hrise f hf).1 (hbehind x hx)
  · rw [hreports]
    refine h.reports.mono ?_
    have hquiet : s.advance.quiet = s.quiet - 1 := rfl
    simp only [List.filterMap_append, List.filterMap_cons, Lexeme.token?, List.length_append,
      List.length_cons, hquiet]
    omega

/-- A report is about the token in view or about the end. -/
theorem Logged.report (h : Logged ls last front s) (hs : s.Stream)
    (hrise : Rising 0 last.place.offset ls) (separator : Nat) (expected : List Kind) :
    Logged ls last front (s.report separator expected) := by
  unfold State.report
  split
  · exact h
  · rename_i hquiet
    have hzero : s.quiet = 0 := Nat.eq_zero_of_not_pos hquiet
    have hreports := h.reports
    rw [hzero, Nat.add_zero] at hreports
    extract_lets names problem
    have hplace : problem.place = s.next.place := by
      simp only [problem]
      split <;> rfl
    have hkind : problem.kind = if s.next.kind ≠ .eof then .unexpectedToken
        else .unexpectedEnd := by
      simp only [problem]
      split <;> simp_all
    have hstray : isStray problem = false := by
      rw [isStray, hkind]
      split <;> rfl
    refine ⟨h.stop, h.split, Nat.le_refl 3, ?_, ?_, ?_⟩
    · rw [List.filter_cons_of_neg (by simp [hstray])]
      exact h.strays
    · refine .cons (fun f hf => ?_) h.sorted
      rw [hplace]
      exact (h.behind hs hrise f hf).2 hzero
    · rw [List.filter_cons_of_pos (by simp [hstray])]
      refine .report hreports (Nat.le_refl _) h.passed_le ?_ ?_
      · rw [hplace, ← h.next_eq hs]
      · simp only [hkind, h.passed_lt_iff]

theorem State.Stream.report (hs : s.Stream) (separator : Nat) (expected : List Kind) :
    (s.report separator expected).Stream := by
  unfold State.report
  split
  · exact hs
  · exact ⟨hs.last, hs.finished, hs.rising, hs.bounded⟩

/-- Every state of a parse has noted what is passed. -/
theorem kept_logged (hrise : Rising 0 last.place.offset ls) (separator : Nat) :
    Kept separator fun s => s.Stream ∧ ∃ front, Logged ls last front s where
  advance s hs hne := by
    obtain ⟨hs, front, h⟩ := hs
    obtain ⟨more, h'⟩ := h.advance hs hrise hne
    exact ⟨hs.advance, _, h'⟩
  report s expected hs := by
    obtain ⟨hs, front, h⟩ := hs
    exact ⟨hs.report separator expected, front, h.report hs hrise separator expected⟩

/-- The tokens with the numbers from `i` on stand between the one with this number and a later
one. -/
theorem three_between (hrise : Rising 0 last.place.offset ls) {ts : List Token}
    (hts : ls.filterMap Lexeme.token? = ts) {i j : Nat} (hij : i + 3 ≤ j) (hj : j ≤ ts.length) :
    3 ≤ (ts.filter fun t => (ts[i]?.getD last).place.offset ≤ t.place.offset &&
      t.place.offset < (ts[j]?.getD last).place.offset).length := by
  have hlt : ∀ {a b : Nat}, a < b → a < ts.length →
      (ts[a]?.getD last).place.offset < (ts[b]?.getD last).place.offset := by
    intro a b hab ha
    subst hts
    exact offset_lt_of_lt hrise hab ha
  generalize hbetween : (fun t : Token => (ts[i]?.getD last).place.offset ≤ t.place.offset &&
    t.place.offset < (ts[j]?.getD last).place.offset : Token → Bool) = between
  have hpassed : ∀ t ∈ (ts.drop i).take 3, between t = true := by
    intro t ht
    obtain ⟨k, hk, rfl⟩ := List.mem_iff_getElem.1 ht
    simp only [List.length_take, List.length_drop] at hk
    have hget : ts[i + k]?.getD last = ts[i + k] := by
      rw [List.getElem?_eq_getElem (by omega), Option.getD_some]
    rw [← hbetween, List.getElem_take, List.getElem_drop, ← hget, Bool.and_eq_true,
      decide_eq_true_eq, decide_eq_true_eq]
    refine ⟨?_, hlt (by omega) (by omega)⟩
    rcases Nat.eq_zero_or_pos k with rfl | hpos
    · exact Nat.le_refl _
    · exact Nat.le_of_lt (hlt (by omega) (by omega))
  have hsub : ((ts.drop i).take 3).Sublist ts :=
    (List.take_sublist _ _).trans (List.drop_sublist _ _)
  have hlength := (hsub.filter between).length_le
  rw [List.filter_eq_self.2 hpassed, List.length_take, List.length_drop] at hlength
  omega

/-- Between two reports at least three tokens are passed. -/
theorem Reports.spaced (hrise : Rising 0 last.place.offset ls) {n : Nat} {es : List Problem}
    (h : Reports (ls.filterMap Lexeme.token?) last n es) : es.Pairwise fun f e =>
      3 ≤ ((ls.filterMap Lexeme.token?).filter fun t =>
        e.place.offset ≤ t.place.offset && t.place.offset < f.place.offset).length := by
  induction h with
  | none => exact .nil
  | @report j n f es h hn hj hplace _ ih =>
    refine .cons (fun e he => ?_) ih
    obtain ⟨i, hij, -, hfrom, -⟩ := h.of_mem he
    rw [hfrom, hplace]
    exact three_between hrise rfl hij hj

end Order

/-- Before the first token the stray characters in front of it are noted. -/
theorem logged_start (l : Lexer) (text : Text) : ∃ front,
    Logged (l.read text).1 (l.read text).2 front
    (State.start (l.read text).1 (l.read text).2) := by
  have hrise := Lexical.read_rising l text
  have hlast : (l.read text).2.kind = .eof := Lexical.kind_read l text
  generalize (l.read text).1 = ls at hrise ⊢
  generalize (l.read text).2 = last at hrise hlast ⊢
  obtain ⟨front, hstrays, hsplit, -, hend⟩ :=
    State.upcoming_of_pull (s := State.start ls last) hlast hrise.inner rfl
  have hproblems : (State.start ls last).problems =
      (front.filterMap Lexeme.problem?).reverse ++ [] :=
    State.problems_of_pull rfl hsplit fun he => (hend he).2
  have hmore : ∀ e ∈ (front.filterMap Lexeme.problem?).reverse, isStray e = true :=
    fun _ => isStray_of_mem
  rw [List.append_nil] at hproblems
  refine ⟨front, rfl, hsplit, Nat.zero_le 3, ?_, ?_, ?_⟩
  · rw [hproblems, List.filter_eq_self.2 hmore, List.reverse_reverse]
  · have hsorted := hrise.sorted
    rw [hsplit] at hsorted
    rw [hproblems]
    exact sorted_problems (List.pairwise_append.1 hsorted).1
  · rw [hproblems, List.filter_eq_nil_iff.2 fun e he => by simp [hmore e he]]
    exact .none

/-- With a step for each lexeme that is left, the end comes into view. -/
theorem drain_ends {separator : Nat} {P : State → Prop} (h : Kept separator P)
    (stream : ∀ s, P s → s.Stream)
    {fuel : Nat} {s : State} (hs : P s) (enough : s.upcoming.length < fuel) :
    P (s.drain fuel) ∧ (s.drain fuel).next.kind = .eof := by
  induction fuel generalizing s with
  | zero => exact absurd enough (Nat.not_lt_zero _)
  | succ fuel ih =>
    rw [State.drain]
    split
    · rename_i heof
      exact ⟨hs, beq_iff_eq.1 heof⟩
    · rename_i hne
      have hne : s.next.kind ≠ .eof := by simpa using hne
      obtain ⟨more, -, hrest, -⟩ := (stream s hs).upcoming_advance
      have hlength := congrArg List.length hrest
      rw [State.upcoming_of_ne hne, List.length_cons] at enough
      rw [List.length_append] at hlength
      exact ih (h.advance s hs hne) (by omega)

/-- What is left when the start rule is parsed is reported and passed. -/
theorem remainder_passed {separator : Nat} {P : State → Prop} (h : Kept separator P)
    (stream : ∀ s, P s → s.Stream) {s s' : State} (hs : P s)
    (hend : (if s.next.kind == .eof then s else (s.report separator [.eof]).drain (s.bound + 1)) =
      s') :
    P s' ∧ s'.next.kind = .eof ∧ s.Leads s' := by
  rw [← hend]
  split
  · rename_i heof
    exact ⟨hs, beq_iff_eq.1 heof, .refl s⟩
  · have hreport := h.report s [.eof] hs
    have hsame : (s.report separator [.eof]).bound = s.bound := by
      unfold State.report
      split <;> rfl
    have hbound := (stream _ hreport).bounded
    have enough : (s.report separator [.eof]).upcoming.length < s.bound + 1 := by omega
    obtain ⟨hkeeps, heof⟩ := drain_ends h stream hreport enough
    exact ⟨hkeeps, heof, (State.leads_report s _ _).trans (leads_drain _ _)⟩

/-- What goes wrong with a text: it is nested too deeply, or the state at its end has problems, and
these are reported. -/
theorem parse_error {l : Lexer} {text : Text} {fault : ParseFault}
    (h : parse l text = .error fault) :
    (∃ limit place, fault = .tooDeep limit place) ∨
      ∃ s front, s.Stream ∧ Logged (l.read text).1 (l.read text).2 front s ∧ s.next.kind = .eof ∧
        s.problems ≠ [] ∧
        fault = .problems s.problems.reverse := by
  have hkept := kept_logged (Lexical.read_rising l text) l.options.separator
  obtain ⟨hstream, -⟩ := start_stream l text
  obtain ⟨r, hr, hid⟩ : ∃ r ∈ expressionGrammar.rules, r.id = expressionGrammar.start :=
    ⟨_, List.mem_cons_self, rfl⟩
  have hrule : expressionReady.rule? expressionReady.start =
      some (r.ready expressionGrammar.facts) :=
    (congrArg expressionGrammar.ready.rule? hid).symm.trans
      (rule?_ready expressionGrammar_predictive.distinct hr)
  rw [parse, parseText, parseLexemes] at h
  simp only [hrule] at h
  split at h
  · cases h
    exact .inl ⟨_, _, rfl⟩
  · rename_i tree s' hrun
    have hlogged := parseRule_keeps hkept expressionReady_inner (Ready.mem_of_rule? hrule) hrun
      ⟨hstream, logged_start l text⟩
    split at h
    · cases h
    · rename_i problems tree' hnot
      cases h
      obtain ⟨⟨hs, front, hfront⟩, heof, hlead⟩ :=
        remainder_passed hkept (fun _ hs => hs.1) hlogged rfl
      refine .inr ⟨_, front, hs, hfront, heof, fun hnil => ?_, rfl⟩
      -- a parse without problems has a tree
      obtain ⟨t, -, rfl, -⟩ := parseRule_sound expressionGrammar_predictive _ r hr _ _ _ hstream
        (fun _ => rfl) hrun
        (hlead.problems hnil)
      exact hnot t hnil rfl

/-- A log of the problems of a text: complete, in the order of the text, and not too dense. -/
structure SyntaxLog (l : Lexer) (text : Text) (log : List Problem) : Prop where
  nonempty : log ≠ []
  /-- The problems stand one behind another. -/
  rising : log.Pairwise fun e f => e.place.offset < f.place.offset
  within : ∀ e ∈ log, e.place.offset ≤ text.length
  /-- The characters reported are those that belong to no token. -/
  strays : log.filter (·.kind == .unexpectedChar) = (l.tokenize text).2
  /-- Every other problem is about a token, or about the end. -/
  reported : ∀ e ∈ log, e.kind ≠ .unexpectedChar →
    (e.kind = .unexpectedToken ∧ ∃ t ∈ (l.tokenize text).1, e.place = t.place) ∨
      (e.kind = .unexpectedEnd ∧ e.place = (l.read text).2.place ∧ e.place.offset = text.length)
  /-- From one of them to the next at least three tokens are passed. -/
  spaced : (log.filter (·.kind != .unexpectedChar)).Pairwise fun e f =>
    3 ≤ ((l.tokenize text).1.filter fun t => e.place.offset ≤ t.place.offset &&
      t.place.offset < f.place.offset).length
  /-- At most one is about the end. -/
  ending : (log.filter (·.kind == .unexpectedEnd)).length ≤ 1

/-- Every problem is a stray character, or a report about a token or the end. -/
theorem Logged.cases {l : Lexer} {text : Text} {front : List Lexeme} {s : State}
    (h : Logged (l.read text).1 (l.read text).2 front s) {e : Problem} (he : e ∈ s.problems) :
    (e.kind = .unexpectedChar ∧ e.place.Counted text) ∨
      (e.kind = .unexpectedToken ∧ ∃ t ∈ (l.tokenize text).1, e.place = t.place ∧
        t.place.Counted text) ∨
        (e.kind = .unexpectedEnd ∧ e.place = (l.read text).2.place) := by
  obtain ⟨-, htokens, hstrays⟩ := (Lexical.tiled_read l text).counted
  cases hstray : isStray e with
  | true =>
    have hmem : e ∈ front.filterMap Lexeme.problem? := by
      rw [← h.strays, List.mem_reverse]
      exact List.mem_filter.2 ⟨he, hstray⟩
    obtain ⟨x, hx, hproblem⟩ := List.mem_filterMap.1 hmem
    obtain ⟨code, place, rfl, rfl⟩ := Lexeme.problem?_eq_some.1 hproblem
    refine .inl ⟨rfl, hstrays code place ?_⟩
    have hread := List.mem_append_left s.upcoming hx
    rw [← h.split] at hread
    exact hread
  | false =>
    obtain ⟨i, -, hi, hplace, hkind⟩ := h.reports.of_mem (List.mem_filter.2 ⟨he, by simp [hstray]⟩)
    rw [Lexer.tokenize]
    rcases Nat.lt_or_ge i ((l.read text).1.filterMap Lexeme.token?).length with hlt | hge
    · rw [if_pos hlt] at hkind
      rw [List.getElem?_eq_getElem hlt, Option.getD_some] at hplace
      have hmem := List.getElem_mem hlt
      obtain ⟨x, hx, htoken⟩ := List.mem_filterMap.1 hmem
      exact .inr (.inl ⟨hkind, _, hmem, hplace, htokens _ (Lexeme.token?_eq_some.1 htoken ▸ hx)⟩)
    · rw [if_neg (Nat.not_lt_of_le hge)] at hkind
      rw [List.getElem?_eq_none hge, Option.getD_none] at hplace
      exact .inr (.inr ⟨hkind, hplace⟩)

/-- Problems that stand one behind another do not stand in one place. -/
theorem length_le_one_of_rising {log : List Problem} {n : Nat}
    (rising : log.Pairwise fun e f => e.place.offset < f.place.offset)
    (hplace : ∀ e ∈ log, e.place.offset = n) :
    log.length ≤ 1 := by
  match log with
  | [] => exact Nat.zero_le 1
  | [_] => exact Nat.le_refl 1
  | e :: f :: _ =>
    have hlt := (List.pairwise_cons.1 rising).1 f List.mem_cons_self
    rw [hplace e List.mem_cons_self, hplace f (List.mem_cons_of_mem _ List.mem_cons_self)] at hlt
    exact absurd hlt (Nat.lt_irrefl n)

/-- What is noted when the end comes into view is the log of the text. -/
theorem Logged.syntaxLog {l : Lexer} {text : Text} {front : List Lexeme} {s : State}
    (h : Logged (l.read text).1 (l.read text).2 front s) (heof : s.next.kind = .eof)
    (hne : s.problems ≠ []) :
    SyntaxLog l text s.problems.reverse := by
  have hcases := @Logged.cases l text front s h
  have hstop := Lexical.offset_read l text
  have hrising : s.problems.reverse.Pairwise fun e f => e.place.offset < f.place.offset :=
    List.pairwise_reverse.2 h.sorted
  refine ⟨by simpa using hne, hrising, fun e he => ?_, ?_, fun e he hkind => ?_, ?_, ?_⟩
  · obtain ⟨-, hcounted⟩ | ⟨-, t, -, hplace, hcounted⟩ | ⟨-, hplace⟩ :=
      hcases (List.mem_reverse.1 he)
    · exact hcounted.within
    · rw [hplace]
      exact hcounted.within
    · rw [hplace, hstop]
  · have hfront : front = (l.read text).1 := by
      rw [h.split, State.upcoming_of_eq heof, List.append_nil]
    rw [Lexer.tokenize, ← hfront, ← h.strays, List.filter_reverse]
    rfl
  · obtain ⟨hchar, -⟩ | ⟨htoken, t, ht, hplace, -⟩ | ⟨hend, hplace⟩ :=
      hcases (List.mem_reverse.1 he)
    · exact absurd hchar hkind
    · exact .inl ⟨htoken, t, ht, hplace⟩
    · exact .inr ⟨hend, hplace, by rw [hplace, hstop]⟩
  · rw [Lexer.tokenize, List.filter_reverse, List.pairwise_reverse]
    exact h.reports.spaced (Lexical.read_rising l text)
  · refine length_le_one_of_rising (n := text.length) (hrising.filter _) fun e he => ?_
    obtain ⟨he, hkind⟩ := List.mem_filter.1 he
    rw [beq_iff_eq] at hkind
    obtain ⟨hchar, -⟩ | ⟨htoken, -⟩ | ⟨-, hplace⟩ := hcases (List.mem_reverse.1 he)
    · rw [hkind] at hchar
      cases hchar
    · rw [hkind] at htoken
      cases htoken
    · rw [hplace, hstop]

/-- A text that fails with a syntax error has a log of its problems, and the error stands where the
first of them does. -/
theorem parse_logged {l : Lexer} {text : Text} {fault : ParseFault}
    (h : parse l text = .error fault) (hreason : fault.error.reason = .syntaxError) :
    ∃ first more, fault = .problems (first :: more) ∧ SyntaxLog l text (first :: more) ∧
      fault.error.position = some first.place.offset := by
  obtain ⟨limit, place, rfl⟩ | ⟨s, front, -, hlogged, heof, hne, rfl⟩ := parse_error h
  · cases hreason
  · have hlog := hlogged.syntaxLog heof hne
    obtain ⟨first, more, hsplit⟩ := List.exists_cons_of_ne_nil hlog.nonempty
    rw [hsplit] at hlog ⊢
    exact ⟨first, more, rfl, hlog, rfl⟩

/-- The problems of `if(1 2 $ 3, 4`: the number where the separator should be, the stray character
behind it, and the end. -/
def brokenChoice : List Problem :=
  [⟨.unexpectedToken, "unexpected token \"2\"", ⟨5, 1, 6⟩, ["\",\""]⟩,
    ⟨.unexpectedChar, "unexpected character '$'", ⟨7, 1, 8⟩, []⟩,
    ⟨.unexpectedEnd, "unexpected end of expression", ⟨13, 1, 14⟩, ["\")\""]⟩]

theorem parse_choice_logged :
    parse (Lexer.ofOptions {}) (Text.ofString "if(1 2 $ 3, 4") = .error (.problems brokenChoice) ∧
      (ParseFault.problems brokenChoice).error.reason = .syntaxError ∧
      SyntaxLog (Lexer.ofOptions {}) (Text.ofString "if(1 2 $ 3, 4") brokenChoice ∧
      (ParseFault.problems brokenChoice).error.position = some 5 := by
  have hparse : parse (Lexer.ofOptions {}) (Text.ofString "if(1 2 $ 3, 4") =
      .error (.problems brokenChoice) := by
    have hlog : ∀ outcome : Except ParseFault Tree, (match outcome with
        | .error (.problems log) => some log
        | _ => none) = some brokenChoice → outcome = .error (.problems brokenChoice) := by
      intro outcome h
      split at h
      · cases h
        rfl
      · cases h
    refine hlog _ ?_
    rw [parse_standing]
    decide +kernel
  obtain ⟨first, more, hfault, hlogged, hposition⟩ := parse_logged hparse rfl
  cases hfault
  exact ⟨hparse, rfl, hlogged, hposition⟩

end Formulary.Grammar
