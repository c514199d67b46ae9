import Formulary.Proofs.Grammar.Reports

/-!
# The limit of the depth

A parse with more levels takes the same steps as one with fewer levels that did not run out of them
(`parseRule_mono`). And every parse comes to its end: the parser as a relation without bounds on its
loops (`RuleEnds`, `SequenceEnds`, `LoopEnds`) leads to the outcome that the bounded loops compute
(`ruleEnds_parseRule`), because every repetition of an element but the last passes a token.
-/

namespace Formulary.Grammar

open Lexical (Kind Lexer Place Token)

/-- What a tree adds in front of the children parsed before it (last first). -/
def Tree.onto (hidden : Bool) (children : List Tree) (t : Tree) : List Tree :=
  (t.added hidden).reverse ++ children

/-- Whether the loop over an element ends before it is tried once more. -/
def ReadyElement.stops (e : ReadyElement) (n : Nat) (s : State) : Bool :=
  !e.element.allows n || (e.element.least ≤ n && !e.first.contains s.next.kind)

section Step

variable {g : Ready} {separator : Nat} {parse : ReadyRule → State → Outcome (Option Tree)}
  {e : ReadyElement}
  {fuel n : Nat} {children : List Tree} {s s' : State}

theorem parseElement_stops (h : e.stops n s = true) :
    parseElement g separator parse e (fuel + 1) n children s = .ok (children, s) := by
  rw [parseElement]
  exact if_pos h

theorem parseElement_at_token (h : e.stops n s = false) {k : Kind}
    (he : e.element.target = .token k) :
    parseElement g separator parse e (fuel + 1) n children s =
      if s.next.kind = k then
        parseElement g separator parse e fuel (n + 1) (.leaf s.next :: children) s.advance
      else .ok (children, (s.report separator e.first).skip) := by
  unfold ReadyElement.stops at h
  rw [parseElement, h, he]
  by_cases hk : s.next.kind = k <;> simp [hk]

def afterRule (g : Ready) (separator : Nat) (parse : ReadyRule → State → Outcome (Option Tree))
    (e : ReadyElement) (hidden : Bool) (fuel n : Nat) (children : List Tree) (s : State) :
    Outcome (Option Tree) → Outcome (List Tree)
  | .error place => .error place
  | .ok (none, s') => .ok (children, s')
  | .ok (some t, s') =>
    if s'.next.place.offset = s.next.place.offset then .ok (t.onto hidden children, s')
    else parseElement g separator parse e fuel (n + 1) (t.onto hidden children) s'

theorem parseElement_at_rule (h : e.stops n s = false) {id : Nat} (he : e.element.target = .rule id)
    {rule : ReadyRule} (hrule : g.rule? id = some rule) :
    parseElement g separator parse e (fuel + 1) n children s =
      afterRule g separator parse e rule.hidden fuel n children s (parse rule s) := by
  unfold ReadyElement.stops at h
  rw [parseElement, h, he]
  simp only [hrule, Bool.false_eq_true, if_false]
  rcases parse rule s with place | ⟨_ | t, s'⟩
  · rfl
  · rfl
  · cases t <;> simp only [afterRule, Tree.onto, Tree.added, beq_iff_eq]

theorem parseElement_at_unknown (h : e.stops n s = false) {id : Nat}
    (he : e.element.target = .rule id) (hrule : g.rule? id = none) :
    parseElement g separator parse e (fuel + 1) n children s = .ok (children, s) := by
  unfold ReadyElement.stops at h
  rw [parseElement, h, he]
  simp only [hrule, Bool.false_eq_true, if_false]

end Step

section Extends

variable {g : Ready} {separator : Nat} {parse parse' : ReadyRule → State → Outcome (Option Tree)}

/-- A parser of rules that comes to the outcomes of another one, wherever that has not run out of
depth. -/
def Extends (parse parse' : ReadyRule → State → Outcome (Option Tree)) : Prop :=
  ∀ r s out, parse r s = .ok out → parse' r s = .ok out

theorem parseElement_extends (h : Extends parse parse') {e : ReadyElement} {fuel n : Nat}
    {children : List Tree} {s : State} {out : List Tree × State}
    (hrun : parseElement g separator parse e fuel n children s = .ok out) :
    parseElement g separator parse' e fuel n children s = .ok out := by
  induction fuel generalizing n children s with
  | zero => exact hrun
  | succ fuel ih =>
    cases hstop : e.stops n s with
    | true =>
      rw [parseElement_stops hstop] at hrun ⊢
      exact hrun
    | false =>
      cases he : e.element.target with
      | token k =>
        rw [parseElement_at_token hstop he] at hrun ⊢
        split at hrun
        · rename_i hk
          rw [if_pos hk]
          exact ih hrun
        · rename_i hk
          rw [if_neg hk]
          exact hrun
      | rule id =>
        cases hrule : g.rule? id with
        | none =>
          rw [parseElement_at_unknown hstop he hrule] at hrun ⊢
          exact hrun
        | some rule =>
          rw [parseElement_at_rule hstop he hrule] at hrun ⊢
          cases hone : parse rule s with
          | error place =>
            rw [hone] at hrun
            cases hrun
          | ok result =>
            rw [hone] at hrun
            rw [h rule s result hone]
            obtain ⟨_ | t, s'⟩ := result
            · exact hrun
            · dsimp only [afterRule] at hrun ⊢
              split at hrun
              · rename_i hsame
                rw [if_pos hsame]
                exact hrun
              · rename_i hother
                rw [if_neg hother]
                exact ih hrun

theorem parseElements_extends (h : Extends parse parse') {es : List ReadyElement}
    {children : List Tree} {s : State}
    {out : List Tree × State} (hrun : parseElements g separator parse es children s = .ok out) :
    parseElements g separator parse' es children s = .ok out := by
  induction es generalizing children s with
  | nil => exact hrun
  | cons e es ih =>
    rw [parseElements] at hrun ⊢
    cases hone : parseElement g separator parse e (s.bound + 2) 0 children s with
    | error place =>
      rw [hone] at hrun
      cases hrun
    | ok result =>
      rw [hone] at hrun
      rw [parseElement_extends h hone]
      exact ih hrun

theorem parseRule_succ (depth : Nat) : Extends (parseRule g separator depth)
    (parseRule g separator (depth + 1)) := by
  induction depth with
  | zero => exact fun _ _ _ h => nomatch h
  | succ depth ih =>
    intro r s out hrun
    rw [parseRule] at hrun ⊢
    cases hchoose : chooseAlternative r s.next.kind with
    | none =>
      rw [hchoose] at hrun
      exact hrun
    | some a =>
      rw [hchoose] at hrun
      dsimp only at hrun ⊢
      cases hone : parseElements g separator (parseRule g separator depth) a.elements [] s with
      | error place =>
        rw [hone] at hrun
        cases hrun
      | ok result =>
        rw [hone] at hrun
        rw [parseElements_extends ih hone]
        exact hrun

/-- With more levels a rule is parsed as with fewer, unless these run out. -/
theorem parseRule_mono {depth depth' : Nat} (hle : depth ≤ depth') :
    Extends (parseRule g separator depth) (parseRule g separator depth') := by
  induction hle with
  | refl => exact fun _ _ _ h => h
  | step _ ih => exact fun r s out h => parseRule_succ _ r s out (ih r s out h)

end Extends

section Ends

variable (g : Ready) (separator : Nat)

mutual

inductive RuleEnds : Nat → ReadyRule → State → Outcome (Option Tree) → Prop
  | deep {r : ReadyRule} {s : State} : RuleEnds 0 r s (.error s.next.place)
  | unfit {depth : Nat} {r : ReadyRule} {s : State} (h : chooseAlternative r s.next.kind = none) :
    RuleEnds (depth + 1) r s (.ok (none, (s.report separator r.first).skip))
  | failed {depth : Nat} {r : ReadyRule} {a : ReadyAlternative} {s : State} {place : Place}
    (h : chooseAlternative r s.next.kind = some a)
    (h' : SequenceEnds depth a.elements [] s (.error place)) :
    RuleEnds (depth + 1) r s (.error place)
  | node {depth : Nat} {r : ReadyRule} {a : ReadyAlternative} {children : List Tree} {s s' : State}
    (h : chooseAlternative r s.next.kind = some a)
    (h' : SequenceEnds depth a.elements [] s (.ok (children, s'))) :
    RuleEnds (depth + 1) r s (.ok (some (.node r.id r.name s.next.place children.reverse), s'))

inductive SequenceEnds : Nat → List ReadyElement → List Tree → State → Outcome (List Tree) → Prop
  | nil {depth : Nat} {children : List Tree} {s : State} :
      SequenceEnds depth [] children s (.ok (children, s))
  | failed {depth : Nat} {e : ReadyElement} {es : List ReadyElement} {children : List Tree}
      {s : State} {place : Place} (h : LoopEnds depth e 0 children s (.error place)) :
    SequenceEnds depth (e :: es) children s (.error place)
  | cons {depth : Nat} {e : ReadyElement} {es : List ReadyElement}
      {children children' : List Tree} {s s' : State}
    {out : Outcome (List Tree)} (h : LoopEnds depth e 0 children s (.ok (children', s')))
    (h' : SequenceEnds depth es children' s' out) : SequenceEnds depth (e :: es) children s out

inductive LoopEnds : Nat → ReadyElement → Nat → List Tree → State → Outcome (List Tree) → Prop
  | enough {depth : Nat} {e : ReadyElement} {n : Nat} {children : List Tree} {s : State}
      (h : e.stops n s = true) :
    LoopEnds depth e n children s (.ok (children, s))
  | token {depth : Nat} {e : ReadyElement} {n : Nat} {children : List Tree} {s : State}
      {out : Outcome (List Tree)}
    (h : e.stops n s = false) (he : e.element.target = .token s.next.kind)
    (h' : LoopEnds depth e (n + 1) (.leaf s.next :: children) s.advance out) :
    LoopEnds depth e n children s out
  | unfit {depth : Nat} {e : ReadyElement} {n : Nat} {children : List Tree} {s : State} {k : Kind}
    (h : e.stops n s = false) (he : e.element.target = .token k) (hk : s.next.kind ≠ k) :
    LoopEnds depth e n children s (.ok (children, (s.report separator e.first).skip))
  | unknown {depth : Nat} {e : ReadyElement} {n : Nat} {children : List Tree} {s : State} {id : Nat}
    (h : e.stops n s = false) (he : e.element.target = .rule id) (hrule : g.rule? id = none) :
    LoopEnds depth e n children s (.ok (children, s))
  | failed {depth : Nat} {e : ReadyElement} {n : Nat} {children : List Tree} {s : State} {id : Nat}
      {rule : ReadyRule}
    {place : Place} (h : e.stops n s = false) (he : e.element.target = .rule id)
    (hrule : g.rule? id = some rule)
    (h' : RuleEnds depth rule s (.error place)) : LoopEnds depth e n children s (.error place)
  | nothing {depth : Nat} {e : ReadyElement} {n : Nat} {children : List Tree}
      {s s' : State} {id : Nat}
    {rule : ReadyRule} (h : e.stops n s = false) (he : e.element.target = .rule id)
    (hrule : g.rule? id = some rule) (h' : RuleEnds depth rule s (.ok (none, s'))) :
    LoopEnds depth e n children s (.ok (children, s'))
  | still {depth : Nat} {e : ReadyElement} {n : Nat} {children : List Tree}
      {s s' : State} {id : Nat}
    {rule : ReadyRule} {t : Tree} (h : e.stops n s = false) (he : e.element.target = .rule id)
    (hrule : g.rule? id = some rule) (h' : RuleEnds depth rule s (.ok (some t, s')))
    (hsame : s'.next.place.offset = s.next.place.offset) :
    LoopEnds depth e n children s (.ok (t.onto rule.hidden children, s'))
  | again {depth : Nat} {e : ReadyElement} {n : Nat} {children : List Tree}
      {s s' : State} {id : Nat}
    {rule : ReadyRule} {t : Tree} {out : Outcome (List Tree)} (h : e.stops n s = false)
    (he : e.element.target = .rule id) (hrule : g.rule? id = some rule)
    (h' : RuleEnds depth rule s (.ok (some t, s')))
    (hother : s'.next.place.offset ≠ s.next.place.offset)
    (h'' : LoopEnds depth e (n + 1) (t.onto rule.hidden children) s' out) :
    LoopEnds depth e n children s out

end

end Ends

structure State.Behind (s₀ s : State) : Prop where
  stream : s.Stream
  le : s.upcoming.length ≤ s₀.upcoming.length
  same : s.upcoming.length = s₀.upcoming.length → s.next = s₀.next

section Measure

variable {s s' : State}

theorem State.Stream.length_advance_lt (h : s.Stream) (hne : s.next.kind ≠ .eof) :
    s.advance.upcoming.length < s.upcoming.length := by
  obtain ⟨front, -, hrest, -⟩ := h.upcoming_advance
  have hlength := congrArg List.length hrest
  rw [List.length_append] at hlength
  rw [State.upcoming_of_ne hne, List.length_cons]
  omega

theorem State.behind_self (h : s.Stream) : s.Behind s := ⟨h, Nat.le_refl _, fun _ => rfl⟩

theorem State.upcoming_report (s : State) (separator : Nat) (expected : List Kind) :
    (s.report separator expected).upcoming = s.upcoming ∧
      (s.report separator expected).next = s.next := by
  unfold State.report
  split <;> exact ⟨rfl, rfl⟩

/-- Every state that a parse comes to lies behind the one where it started. -/
theorem kept_behind (separator : Nat) (s₀ : State) : Kept separator s₀.Behind where
  advance s h hne := by
    have hlt := h.stream.length_advance_lt hne
    have hle := h.le
    exact ⟨h.stream.advance, by omega, fun heq => by omega⟩
  report s expected h := by
    obtain ⟨hupcoming, hnext⟩ := s.upcoming_report separator expected
    refine ⟨h.stream.report separator expected, ?_, ?_⟩
    · rw [hupcoming]
      exact h.le
    · rw [hupcoming, hnext]
      exact h.same

/-- Where another token is in view, some have been passed. -/
theorem State.Behind.lt (h : s.Behind s') (hother : s'.next.place.offset ≠ s.next.place.offset) :
    s'.upcoming.length < s.upcoming.length :=
  Nat.lt_of_le_of_ne h.le fun heq => hother (congrArg (·.place.offset) (h.same heq))

end Measure

section Terminates

variable {g : Ready} {separator depth : Nat}

/-- With more rounds than tokens left, the loop over an element ends by itself. -/
theorem loopEnds_parseElement (inner : g.Inner)
    (hends : ∀ r ∈ g.rules, ∀ s : State, s.Stream →
      RuleEnds g separator depth r s (parseRule g separator depth r s))
    {e : ReadyElement} (he : e.element.target ≠ .token .eof) {fuel : Nat} (n : Nat)
    (children : List Tree) {s : State} (hs : s.Stream) (enough : s.upcoming.length < fuel) :
    LoopEnds g separator depth e n children s
      (parseElement g separator (parseRule g separator depth) e fuel n children s) := by
  induction fuel generalizing n children s with
  | zero => exact absurd enough (Nat.not_lt_zero _)
  | succ fuel ih =>
    cases hstop : e.stops n s with
    | true =>
      rw [parseElement_stops hstop]
      exact .enough hstop
    | false =>
      cases htarget : e.element.target with
      | token k =>
        rw [parseElement_at_token hstop htarget]
        split
        · rename_i hk
          have hne : s.next.kind ≠ .eof := by
            rw [hk]
            rintro rfl
            exact he htarget
          have hlt := hs.length_advance_lt hne
          exact .token hstop (hk ▸ htarget) (ih _ _ hs.advance (by omega))
        · rename_i hk
          exact .unfit hstop htarget hk
      | rule id =>
        cases hrule : g.rule? id with
        | none =>
          rw [parseElement_at_unknown hstop htarget hrule]
          exact .unknown hstop htarget hrule
        | some rule =>
          have hmem := Ready.mem_of_rule? hrule
          have hone := hends rule hmem s hs
          rw [parseElement_at_rule hstop htarget hrule]
          cases hrun : parseRule g separator depth rule s with
          | error place =>
            rw [hrun] at hone
            exact .failed hstop htarget hrule hone
          | ok result =>
            obtain ⟨_ | t, s'⟩ := result
            · rw [hrun] at hone
              exact .nothing hstop htarget hrule hone
            · have hbehind := parseRule_keeps (kept_behind separator s) inner hmem hrun
                (State.behind_self hs)
              rw [hrun] at hone
              dsimp only [afterRule]
              split
              · rename_i hsame
                exact .still hstop htarget hrule hone hsame
              · rename_i hother
                have hlt := hbehind.lt hother
                exact .again hstop htarget hrule hone hother (ih _ _ hbehind.stream (by omega))

theorem sequenceEnds_parseElements (inner : g.Inner)
    (hends : ∀ r ∈ g.rules, ∀ s : State, s.Stream →
      RuleEnds g separator depth r s (parseRule g separator depth r s))
    {es : List ReadyElement} (hes : ∀ e ∈ es, e.element.target ≠ .token .eof)
    (children : List Tree) {s : State} (hs : s.Stream) :
    SequenceEnds g separator depth es children s
      (parseElements g separator (parseRule g separator depth) es children s) := by
  induction es generalizing children s with
  | nil => exact .nil
  | cons e es ih =>
    obtain ⟨he, hes⟩ := List.forall_mem_cons.1 hes
    have hone := loopEnds_parseElement inner hends he 0 children hs
      (Nat.lt_add_right 1 (Nat.lt_succ_of_le hs.bounded))
    rw [parseElements]
    cases hrun : parseElement g separator (parseRule g separator depth) e (s.bound + 2)
      0 children s with
    | error place =>
      rw [hrun] at hone
      exact .failed hone
    | ok result =>
      obtain ⟨children', s'⟩ := result
      rw [hrun] at hone
      have hbehind := parseElement_keeps (kept_behind separator s)
        (fun r hr q t q' hq => parseRule_keeps (kept_behind separator s) inner hr hq) he hrun
          (State.behind_self hs)
      exact .cons hone (ih hes _ hbehind.stream)

/-- Every parse of a rule comes to an end, and the outcome is the one computed. -/
theorem ruleEnds_parseRule (inner : g.Inner) (separator depth : Nat) : ∀ r ∈ g.rules, ∀ s :
    State, s.Stream →
    RuleEnds g separator depth r s (parseRule g separator depth r s) := by
  induction depth with
  | zero => exact fun r _ s _ => .deep
  | succ depth ih =>
    intro r hr s hs
    rw [parseRule]
    cases hchoose : chooseAlternative r s.next.kind with
    | none => exact .unfit hchoose
    | some a =>
      have hmem : a ∈ r.alternatives := by
        unfold chooseAlternative at hchoose
        split at hchoose
        · rename_i hfind
          cases hchoose
          exact List.mem_of_find?_eq_some hfind
        · exact (List.mem_filter.1 (List.mem_of_getLast? hchoose)).1
      have hsequence := sequenceEnds_parseElements inner ih (inner r hr a hmem) [] hs
      dsimp only
      cases hrun : parseElements g separator (parseRule g separator depth) a.elements [] s with
      | error place =>
        rw [hrun] at hsequence
        exact .failed hchoose hsequence
      | ok result =>
        obtain ⟨children, s'⟩ := result
        rw [hrun] at hsequence
        exact .node hchoose hsequence

end Terminates

inductive DrainEnds : State → State → Prop
  | done {s : State} (h : s.next.kind = .eof) : DrainEnds s s
  | pass {s s' : State} (h : s.next.kind ≠ .eof) (h' : DrainEnds s.advance s') : DrainEnds s s'

/-- What a text comes to when all its tokens are passed. -/
def verdict (tree : Option Tree) (s : State) : Except ParseFault Tree :=
  match s.problems, tree with
  | [], some t => .ok t
  | problems, _ => .error (.problems problems.reverse)

inductive TextEnds (g : Ready) (l : Lexer) (text : Text) : Except ParseFault Tree → Prop
  | deep {rule : ReadyRule} {place : Place} (hrule : g.rule? g.start = some rule)
    (h : RuleEnds g l.options.separator l.options.depth rule
      (State.start (l.read text).1 (l.read text).2)
      (.error place)) : TextEnds g l text (.error (.tooDeep l.options.depth place))
  | whole {rule : ReadyRule} {tree : Option Tree} {s : State} (hrule : g.rule? g.start = some rule)
    (h : RuleEnds g l.options.separator l.options.depth rule
      (State.start (l.read text).1 (l.read text).2)
      (.ok (tree, s))) (heof : s.next.kind = .eof) : TextEnds g l text (verdict tree s)
  | remainder {rule : ReadyRule} {tree : Option Tree} {s s' : State}
      (hrule : g.rule? g.start = some rule)
    (h : RuleEnds g l.options.separator l.options.depth rule
      (State.start (l.read text).1 (l.read text).2)
      (.ok (tree, s))) (hne : s.next.kind ≠ .eof)
        (h' : DrainEnds (s.report l.options.separator [.eof]) s') :
    TextEnds g l text (verdict tree s')

/-- With more rounds than tokens left, passing them ends at the end. -/
theorem drainEnds_drain {fuel : Nat} {s : State} (hs : s.Stream)
    (enough : s.upcoming.length < fuel) :
    DrainEnds s (s.drain fuel) := by
  induction fuel generalizing s with
  | zero => exact absurd enough (Nat.not_lt_zero _)
  | succ fuel ih =>
    rw [State.drain]
    split
    · rename_i heof
      exact .done (beq_iff_eq.1 heof)
    · rename_i hne
      have hne : s.next.kind ≠ .eof := by simpa using hne
      have hlt := hs.length_advance_lt hne
      exact .pass hne (ih hs.advance (by omega))

/-- The rule that texts are parsed by. -/
theorem exists_startRule : ∃ r ∈ expressionGrammar.rules, r.id = Form.expression.number ∧
    expressionReady.rule? expressionReady.start = some (r.ready expressionGrammar.facts) := by
  obtain ⟨r, hr, hid⟩ : ∃ r ∈ expressionGrammar.rules, r.id = Form.expression.number :=
    ⟨_, List.mem_cons_self, rfl⟩
  exact ⟨r, hr, hid,
    (congrArg expressionGrammar.ready.rule? hid).symm.trans
      (rule?_ready expressionGrammar_predictive.distinct hr)⟩

/-- What a parse of a text comes to after the outcome of its first rule. -/
theorem parse_eq (l : Lexer) (text : Text) {r : ReadyRule}
    (hr : expressionReady.rule? expressionReady.start = some r) :
    parse l text =
      match parseRule expressionReady l.options.separator l.options.depth r
        (State.start (l.read text).1 (l.read text).2) with
      | .error place => .error (.tooDeep l.options.depth place)
      | .ok (tree, s) => verdict tree
        (if s.next.kind == .eof then s else (s.report l.options.separator [.eof]).drain
          (s.bound + 1)) := by
  rw [parse, parseText, parseLexemes]
  simp only [hr]
  cases parseRule expressionReady l.options.separator l.options.depth r
      (State.start (l.read text).1 (l.read text).2) with
  | error place => rfl
  | ok result => rfl

/-- Every parse of a text comes to an end. -/
theorem textEnds_parse (l : Lexer) (text : Text) :
    TextEnds expressionReady l text (parse l text) := by
  obtain ⟨r, hr, -, hrule⟩ := exists_startRule
  obtain ⟨hstream, -⟩ := start_stream l text
  have hmem := Ready.mem_of_rule? hrule
  have hends := ruleEnds_parseRule expressionReady_inner l.options.separator l.options.depth
    _ hmem _ hstream
  rw [parse_eq l text hrule]
  cases hrun : parseRule expressionReady l.options.separator l.options.depth
    (r.ready expressionGrammar.facts)
      (State.start (l.read text).1 (l.read text).2) with
  | error place =>
    rw [hrun] at hends
    exact .deep hrule hends
  | ok result =>
    obtain ⟨tree, s⟩ := result
    rw [hrun] at hends
    have hbehind := parseRule_keeps (kept_behind l.options.separator _)
      expressionReady_inner hmem hrun
      (State.behind_self hstream)
    dsimp only
    split
    · rename_i heof
      exact .whole hrule hends (beq_iff_eq.1 heof)
    · rename_i hne
      have hreport := hbehind.stream.report l.options.separator [.eof]
      have hlength := hbehind.stream.bounded
      refine .remainder hrule hends (by simpa using hne) (drainEnds_drain hreport ?_)
      rw [(s.upcoming_report _ _).1]
      omega

end Formulary.Grammar
