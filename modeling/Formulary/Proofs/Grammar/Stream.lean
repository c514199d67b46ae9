import Formulary.Grammar.Parse
import Formulary.Proofs.Lexical.Places

/-!
# States of a parse

What a parser still has before it, as a list of lexemes. A parse without problems passes tokens
only, one after another, and everything that goes wrong on the way leaves a problem that no later
step takes away.
-/

namespace Formulary.Grammar

open Lexical (Kind Lexeme Lexer Problem Rising Token)

namespace State

def upcoming (s : State) : List Lexeme := if s.next.kind = .eof then [] else .token s.next :: s.rest

structure Stream (s : State) : Prop where
  last : s.last.kind = .eof
  finished : s.next.kind = .eof → s.next = s.last ∧ s.rest = []
  rising : ∃ low, Rising low s.last.place.offset s.upcoming
  bounded : s.upcoming.length ≤ s.bound

def Clean (s : State) : Prop := s.problems = [] ∧ s.quiet = 0

def Calm (s : State) : Prop := s.problems = [] → s.quiet = 0

theorem upcoming_of_ne {s : State} (h : s.next.kind ≠ .eof) :
    s.upcoming = .token s.next :: s.rest := if_neg h

theorem upcoming_of_eq {s : State} (h : s.next.kind = .eof) : s.upcoming = [] := if_pos h

def Strays (ls : List Lexeme) : Prop := ∀ x ∈ ls, ∃ code place, x = .stray code place

/-- No stray character stands before tokens. -/
theorem Strays.eq_nil {front behind : List Lexeme} {ts : List Token} (h : Strays front)
    (hts : front ++ behind = ts.map .token) : front = [] := by
  cases front with
  | nil => rfl
  | cons x front =>
    obtain ⟨code, place, rfl⟩ := h x List.mem_cons_self
    have hmem : Lexeme.stray code place ∈ ts.map .token := by
      rw [← hts]
      exact List.mem_cons_self
    obtain ⟨t, -, ht⟩ := List.mem_map.1 hmem
    cases ht

/-- What is pulled into view stands behind stray characters, each of which is a problem. -/
theorem pull_spec (last : Token) (ls : List Lexeme) (problems : List Problem) :
    ∃ front, Strays front ∧ (pull last ls problems).2.2.length = problems.length + front.length ∧
      (ls = front ++ Lexeme.token (pull last ls problems).1 :: (pull last ls problems).2.1 ∨
        ls = front ∧ (pull last ls problems).1 = last ∧ (pull last ls problems).2.1 = []) := by
  induction ls generalizing problems with
  | nil => exact ⟨[], nofun, rfl, .inr ⟨rfl, rfl, rfl⟩⟩
  | cons x ls ih =>
    cases x with
    | token t => exact ⟨[], nofun, rfl, .inl rfl⟩
    | stray code place =>
      obtain ⟨front, hfront, hlength, hsplit⟩ := ih (.stray code place :: problems)
      refine ⟨.stray code place :: front, fun x hx => ?_, ?_, ?_⟩
      · rcases List.mem_cons.1 hx with rfl | hx
        · exact ⟨code, place, rfl⟩
        · exact hfront x hx
      · rw [pull, hlength]
        simp only [List.length_cons]
        omega
      · rcases hsplit with hsplit | ⟨hsplit, hlast, hrest⟩
        · exact .inl (congrArg (Lexeme.stray code place :: ·) hsplit)
        · exact .inr ⟨congrArg (Lexeme.stray code place :: ·) hsplit, hlast, hrest⟩

section Pulled

variable {last : Token} {ls : List Lexeme} {problems : List Problem} {s : State} {high : Nat}

/-- A state whose view was pulled from lexemes has those behind some stray characters before it. -/
theorem upcoming_of_pull (hlast : last.kind = .eof) (inner : ∀ t, .token t ∈ ls → t.kind ≠ .eof)
    (hs : (s.next, s.rest, s.problems) = pull last ls problems) :
    ∃ front, Strays front ∧ ls = front ++ s.upcoming ∧
      s.problems.length = problems.length + front.length ∧
      (s.next.kind = .eof → s.next = last ∧ s.rest = []) := by
  obtain ⟨front, hfront, hlength, hsplit⟩ := pull_spec last ls problems
  rw [← hs] at hlength hsplit
  refine ⟨front, hfront, ?_, hlength, fun he => ?_⟩
  · rcases hsplit with hsplit | ⟨hsplit, hnext, hrest⟩
    · have hne : s.next.kind ≠ .eof := inner _ (by rw [hsplit]; simp)
      rw [upcoming_of_ne hne]
      exact hsplit
    · simp only at hnext
      rw [upcoming_of_eq (hnext ▸ hlast), List.append_nil]
      exact hsplit
  · rcases hsplit with hsplit | ⟨-, hnext, hrest⟩
    · exact absurd he (inner _ (by rw [hsplit]; simp))
    · exact ⟨hnext, hrest⟩

end Pulled

variable {s s' s'' : State}

/-- What stands before a state after it passed a token. -/
theorem Stream.upcoming_advance (h : s.Stream) :
    ∃ front, Strays front ∧ s.rest = front ++ s.advance.upcoming ∧
      s.advance.problems.length = s.problems.length + front.length ∧
      (s.advance.next.kind = .eof → s.advance.next = s.last ∧ s.advance.rest = []) := by
  refine upcoming_of_pull h.last (fun t ht => ?_) rfl
  by_cases he : s.next.kind = .eof
  · rw [(h.finished he).2] at ht
    exact nomatch ht
  · obtain ⟨low, hrise⟩ := h.rising
    rw [upcoming_of_ne he] at hrise
    exact hrise.inner t (List.mem_cons_of_mem _ ht)

theorem Stream.advance (h : s.Stream) : s.advance.Stream := by
  obtain ⟨front, -, hrest, -, hend⟩ := h.upcoming_advance
  obtain ⟨low, hrise⟩ := h.rising
  have hbound := h.bounded
  by_cases he : s.next.kind = .eof
  · rw [(h.finished he).2] at hrest
    have hnil : s.advance.upcoming = [] := (List.append_eq_nil_iff.1 hrest.symm).2
    exact ⟨h.last, hend, ⟨0, hnil ▸ .nil⟩, by rw [hnil]; exact Nat.zero_le _⟩
  · rw [upcoming_of_ne he, hrest, ← List.cons_append] at hrise hbound
    refine ⟨h.last, hend, ⟨low, hrise.right⟩, ?_⟩
    simp only [List.length_cons, List.length_append] at hbound
    show s.advance.upcoming.length ≤ s.bound
    omega

structure Consumes (s : State) (ts : List Token) (s' : State) : Prop where
  upcoming : s.upcoming = ts.map .token ++ s'.upcoming
  last : s'.last = s.last
  bound : s'.bound = s.bound
  stream : s'.Stream

theorem Consumes.refl (h : s.Stream) : s.Consumes [] s := ⟨rfl, rfl, rfl, h⟩

theorem Consumes.trans {ts us : List Token} (h : s.Consumes ts s') (h' : s'.Consumes us s'') :
    s.Consumes (ts ++ us) s'' :=
  ⟨by rw [h.upcoming, h'.upcoming, List.map_append,
    List.append_assoc], h'.last.trans h.last, h'.bound.trans h.bound,
    h'.stream⟩

/-- Passing a token without a new problem. -/
theorem Consumes.advance (h : s.Stream) (hne : s.next.kind ≠ .eof)
    (hclean : s.advance.problems = []) :
    s.Consumes [s.next] s.advance := by
  obtain ⟨front, -, hrest, hlength, -⟩ := h.upcoming_advance
  have hfront : front = [] := by
    rw [hclean] at hlength
    simp only [List.length_nil] at hlength
    exact List.eq_nil_of_length_eq_zero (by omega)
  rw [hfront] at hrest
  exact ⟨by rw [upcoming_of_ne hne, hrest]; rfl, rfl, rfl, h.advance⟩

/-- The token in view is the first of those passed. -/
theorem Consumes.next_eq {t : Token} {ts : List Token} (h : s.Consumes (t :: ts) s') :
    s.next = t := by
  have hup := h.upcoming
  by_cases he : s.next.kind = .eof
  · rw [upcoming_of_eq he] at hup
    cases hup
  · rw [upcoming_of_ne he] at hup
    injection hup with hhead
    injection hhead

/-- After a token was passed the view starts elsewhere. -/
theorem Consumes.offset_ne {ts : List Token} (h : s.Consumes ts s') (hs : s.Stream)
    (hts : ts ≠ []) :
    s'.next.place.offset ≠ s.next.place.offset := by
  obtain ⟨t, ts, rfl⟩ := List.exists_cons_of_ne_nil hts
  obtain ⟨low, hrise⟩ := hs.rising
  rw [h.upcoming] at hrise
  have hnext := h.next_eq
  by_cases he : s'.next.kind = .eof
  · have hlt := hrise.high (.token t) (by simp)
    rw [(h.stream.finished he).1, h.last, hnext]
    exact (Nat.ne_of_lt hlt).symm
  · rw [upcoming_of_ne he, List.map_cons, List.cons_append] at hrise
    have hlt := (List.pairwise_cons.1 hrise.sorted).1 (.token s'.next) (by simp)
    rw [hnext]
    exact (Nat.ne_of_lt hlt).symm

/-- Problems only grow in number, and a problem in the way of the next report has been reported. -/
structure Leads (s s' : State) : Prop where
  problems : s'.problems = [] → s.problems = []
  calm : s.Calm → s'.Calm

theorem Leads.refl (s : State) : s.Leads s := ⟨id, id⟩

theorem Leads.trans (h : s.Leads s') (h' : s'.Leads s'') : s.Leads s'' :=
  ⟨fun hp => h.problems (h'.problems hp), fun hc => h'.calm (h.calm hc)⟩

theorem leads_advance (s : State) : s.Leads s.advance := by
  obtain ⟨front, -, hlength, -⟩ := pull_spec s.last s.rest s.problems
  have hproblems : s.advance.problems = [] → s.problems = [] := by
    intro h
    have hzero : (pull s.last s.rest s.problems).2.2 = [] := h
    rw [hzero, List.length_nil] at hlength
    exact List.eq_nil_of_length_eq_zero (by omega)
  refine ⟨hproblems, fun hcalm hp => ?_⟩
  show s.quiet - 1 = 0
  rw [hcalm (hproblems hp)]

theorem leads_skip (s : State) : s.Leads s.skip := by
  unfold skip
  split
  · exact .refl s
  · exact leads_advance s

theorem leads_report (s : State) (separator : Nat) (expected : List Kind) :
    s.Leads (s.report separator expected) := by
  unfold report
  split
  · exact .refl s
  · exact ⟨nofun, fun _ => nofun⟩

/-- After a report there is a problem. -/
theorem report_problems_ne_nil (h : s.Calm) (separator : Nat) (expected : List Kind) :
    (s.report separator expected).problems ≠ [] := by
  unfold report
  split
  · rename_i hquiet
    intro hp
    rw [h hp] at hquiet
    exact Nat.lt_irrefl 0 hquiet
  · exact List.cons_ne_nil _ _

end State

end Formulary.Grammar
