import Formulary.Proofs.Grammar.Completeness
import Formulary.Proofs.Grammar.Steering

/-!
# The texts that parse

A text parses exactly if all its characters belong to tokens and the grammar of expressions derives
their kinds, and its tree has its tokens as leaves. The only other way to fail is to be nested too
deeply. Every node of the tree starts where one of the tokens starts.
-/

namespace Formulary.Grammar

open Lexical (Kind Lexeme Lexer Rising Token)

section Tokens

variable {l : Lexer} {text : Text}

/-- A text without stray characters is a sequence of tokens. -/
theorem read_of_tokenize (h : (l.tokenize text).2 = []) :
    (l.read text).1 = (l.tokenize text).1.map .token := by
  unfold Lexer.tokenize at h ⊢
  simp only at h ⊢
  generalize (l.read text).1 = ls at h ⊢
  induction ls with
  | nil => rfl
  | cons x ls ih =>
    cases x with
    | token t => exact congrArg (Lexeme.token t :: ·) (ih h)
    | stray code place => cases h

theorem tokenize_of_read {ts : List Token} (h : (l.read text).1 = ts.map .token) :
    l.tokenize text = (ts, []) := by
  unfold Lexer.tokenize
  simp [h, List.filterMap_map, Function.comp_def, Lexeme.token?, Lexeme.problem?]

end Tokens

/-- The state before the first token of a text. -/
theorem start_stream (l : Lexer) (text : Text) :
    (State.start (l.read text).1 (l.read text).2).Stream ∧
      ∃ front, State.Strays front ∧
        (l.read text).1 = front ++ (State.start (l.read text).1 (l.read text).2).upcoming ∧
        (State.start (l.read text).1 (l.read text).2).problems.length = front.length := by
  have hrise := Lexical.read_rising l text
  have hlast : (l.read text).2.kind = .eof := Lexical.kind_read l text
  generalize (l.read text).1 = ls at hrise ⊢
  generalize (l.read text).2 = last at hrise hlast ⊢
  obtain ⟨front, hstrays, hsplit, hlength, hend⟩ :=
    State.upcoming_of_pull (s := State.start ls last) hlast hrise.inner rfl
  have hbound : (State.start ls last).upcoming.length ≤ ls.length := by
    have hlen := congrArg List.length hsplit
    rw [List.length_append] at hlen
    omega
  have hbehind : Rising 0 last.place.offset (State.start ls last).upcoming := by
    generalize (State.start ls last).upcoming = behind at hsplit ⊢
    rw [hsplit] at hrise
    exact hrise.right
  exact ⟨⟨hlast, hend, ⟨0, hbehind⟩, hbound⟩, front, hstrays, hsplit, by simpa using hlength⟩

/-- Passing tokens up to the end keeps problems. -/
theorem leads_drain (fuel : Nat) (s : State) : s.Leads (s.drain fuel) := by
  induction fuel generalizing s with
  | zero => exact .refl s
  | succ fuel ih =>
    rw [State.drain]
    split
    · exact .refl s
    · exact (State.leads_advance s).trans (ih _)

/-- A parse that does not run out of depth gives the tree of the first rule, if there is no problem
and the text ends behind it. -/
theorem parse_cases (l : Lexer) (text : Text) :
    (∃ limit place, parse l text = .error (.tooDeep limit place)) ∨
      ∃ r ∈ expressionGrammar.rules, r.id = Form.expression.number ∧ ∃ tree s',
        parseRule expressionGrammar.ready l.options.separator l.options.depth
          (r.ready expressionGrammar.facts)
          (State.start (l.read text).1 (l.read text).2) = .ok (tree, s') ∧
        ∀ t, parse l text = .ok t ↔ tree = some t ∧ s'.problems = [] ∧ s'.next.kind = .eof := by
  obtain ⟨r, hr, hid⟩ : ∃ r ∈ expressionGrammar.rules, r.id = expressionGrammar.start :=
    ⟨_, List.mem_cons_self, rfl⟩
  have hrule : expressionReady.rule? expressionReady.start =
      some (r.ready expressionGrammar.facts) :=
    (congrArg expressionGrammar.ready.rule? hid).symm.trans
      (rule?_ready expressionGrammar_predictive.distinct hr)
  have hparse : parse l text = parseText expressionReady l text := rfl
  rw [parseText, parseLexemes] at hparse
  simp only [hrule] at hparse
  cases hrun : parseRule expressionReady l.options.separator l.options.depth
    (r.ready expressionGrammar.facts)
      (State.start (l.read text).1 (l.read text).2) with
  | error place =>
    rw [hrun] at hparse
    exact .inl ⟨_, _, hparse⟩
  | ok outcome =>
    obtain ⟨tree, s'⟩ := outcome
    rw [hrun] at hparse
    have hcalm : s'.Calm := (parseRule_leads hrun).calm fun _ => rfl
    refine .inr ⟨r, hr, hid, tree, s', hrun, fun t => ?_⟩
    rw [hparse]
    by_cases he : s'.next.kind = .eof
    · simp only [he, beq_self_eq_true, if_true, and_true]
      cases tree <;> cases s'.problems <;> simp
    · have hproblems : ((s'.report l.options.separator [.eof]).drain (s'.bound + 1)).problems ≠
        [] := fun h =>
        State.report_problems_ne_nil hcalm _ _ ((leads_drain _ _).problems h)
      simp only [beq_iff_eq, he, if_false, and_false, iff_false]
      cases hp : ((s'.report l.options.separator [.eof]).drain (s'.bound + 1)).problems with
      | nil => exact absurd hp hproblems
      | cons p ps => simp

/-- A text that parses has no stray characters; its tokens are the leaves of its tree, and their
kinds are derived from the rule of expressions. -/
theorem parse_sound {l : Lexer} {text : Text} {t : Tree} (h : parse l text = .ok t) :
    (l.tokenize text).2 = [] ∧ t.leaves = (l.tokenize text).1 ∧
      Derives expressionGrammar (.rule Form.expression.number)
        ((l.tokenize text).1.map (·.kind)) := by
  obtain ⟨limit, place, hdeep⟩ | ⟨r, hr, hid, tree, s', hrun, hok⟩ := parse_cases l text
  · rw [h] at hdeep
    cases hdeep
  obtain ⟨hstream, front, -, hsplit, hlength⟩ := start_stream l text
  obtain ⟨rfl, hclean, heof⟩ := (hok t).1 h
  obtain ⟨tree, ts, htree, hpass, hleaves, hderives⟩ :=
    parseRule_sound expressionGrammar_predictive _ r hr _ _ _ hstream (fun _ => rfl) hrun hclean
  cases htree
  have hfront : front = [] := by
    rw [(parseRule_leads hrun).problems hclean] at hlength
    exact List.eq_nil_of_length_eq_zero hlength.symm
  have hread : (l.read text).1 = ts.map .token := by
    rw [hsplit, hpass.upcoming, State.upcoming_of_eq heof, hfront, List.append_nil, List.nil_append]
  rw [tokenize_of_read hread]
  exact ⟨rfl, hleaves, hid ▸ hderives⟩

/-- A text parses exactly if it has no stray characters and the kinds of its tokens are derived from
the rule of expressions, unless it is nested too deeply; and the leaves of its tree are its
tokens. -/
theorem parse_accepts (l : Lexer) (text : Text) :
    (∃ limit place, parse l text = .error (.tooDeep limit place)) ∨
      ((∃ t, parse l text = .ok t) ↔
        (l.tokenize text).2 = [] ∧
          Derives expressionGrammar (.rule Form.expression.number)
            ((l.tokenize text).1.map (·.kind))) ∧
      ∀ t, parse l text = .ok t → t.leaves = (l.tokenize text).1 := by
  obtain hdeep | ⟨r, hr, hid, tree, s', hrun, hok⟩ := parse_cases l text
  · exact .inl hdeep
  obtain ⟨hstream, front, hstrays, hsplit, hlength⟩ := start_stream l text
  refine .inr ⟨⟨fun ⟨t, ht⟩ => ⟨(parse_sound ht).1, (parse_sound ht).2.2⟩,
    fun ⟨hnone, hderives⟩ => ?_⟩,
    fun t ht => (parse_sound ht).2.1⟩
  have hat : (State.start (l.read text).1 (l.read text).2).At ((l.tokenize text).1 ++ []) := by
    have hread := read_of_tokenize hnone
    rw [hsplit] at hread
    have hfront := hstrays.eq_nil hread
    rw [hfront] at hlength hread
    rw [List.append_nil]
    exact ⟨hstream, ⟨List.eq_nil_of_length_eq_zero hlength, rfl⟩, hread⟩
  have hend : comes [] ∈ byNumber Form.follows Form.expression.number := by decide
  obtain ⟨hsome, hat'⟩ := hderives.passes expressionGrammar_predictive r hr hid _ _ _ [] _ _
    hat rfl hend hrun
  obtain ⟨t, rfl⟩ := Option.isSome_iff_exists.1 hsome
  exact ⟨t, (hok t).2 ⟨rfl, hat'.clean.1, hat'.kind_eq⟩⟩

/-- The tree of a text is grown by the rule of expressions. -/
theorem parse_grows {l : Lexer} {text : Text} {t : Tree} (h : parse l text = .ok t) :
    Grows expressionGrammar (.rule Form.expression.number) [t] := by
  obtain ⟨limit, place, hdeep⟩ | ⟨r, hr, hid, tree, s', hrun, hok⟩ := parse_cases l text
  · rw [h] at hdeep
    cases hdeep
  obtain ⟨rfl, hclean, -⟩ := (hok t).1 h
  obtain ⟨hstream, -⟩ := start_stream l text
  obtain ⟨tree, htree, -, hgrows⟩ :=
    parseRule_grows expressionGrammar_predictive _ r hr _ _ _ hstream (fun _ => rfl) hrun hclean
  cases htree
  have hshown : ∀ r ∈ expressionRules, r.id = Form.expression.number → r.hidden = false := by decide
  rw [hid, hshown r hr hid] at hgrows
  cases t <;> exact hgrows

/-- Without stray characters the tokens of a text are before the parser. -/
theorem start_at {l : Lexer} {text : Text} (hnone : (l.tokenize text).2 = []) :
    (State.start (l.read text).1 (l.read text).2).At (l.tokenize text).1 := by
  obtain ⟨hstream, front, hstrays, hsplit, hlength⟩ := start_stream l text
  have hread := read_of_tokenize hnone
  rw [hsplit] at hread
  have hfront := hstrays.eq_nil hread
  rw [hfront] at hlength hread
  exact ⟨hstream, ⟨List.eq_nil_of_length_eq_zero hlength, rfl⟩, hread⟩

/-- A text whose tokens are the leaves of a tree that grows has this tree, if it has any. -/
theorem parse_eq_of_grows {l : Lexer} {text : Text} {t t' : Tree} (hnone : (l.tokenize text).2 = [])
    (hgrows : Grows expressionGrammar (.rule Form.expression.number) [t])
    (hleaves : t.leaves = (l.tokenize text).1)
    (h : parse l text = .ok t') : t' = t := by
  obtain ⟨limit, place, hdeep⟩ | ⟨r, hr, hid, tree, s', hrun, hok⟩ := parse_cases l text
  · rw [h] at hdeep
    cases hdeep
  have hat : (State.start (l.read text).1 (l.read text).2).At (Tree.leavesOf [t] ++ []) := by
    simp only [Tree.leavesOf, List.append_nil, hleaves]
    exact start_at hnone
  have hend : comes [] ∈ byNumber Form.follows Form.expression.number := by decide
  obtain ⟨htree, -⟩ := hgrows.regrows expressionGrammar_predictive r hr hid _ _ [] _ _ hat hend hrun
  obtain ⟨rfl, -⟩ := (hok t').1 h
  have hshown : ∀ r ∈ expressionRules, r.id = Form.expression.number → r.hidden = false := by decide
  rw [Option.map_some, hshown r hr hid, Option.some_inj] at htree
  cases t' <;> exact (List.cons.inj htree).1

/-- A text whose tokens are the leaves of a tree that grows has this tree, unless it is nested too
deeply. -/
theorem parse_of_grows {l : Lexer} {text : Text} {t : Tree} (hnone : (l.tokenize text).2 = [])
    (hgrows : Grows expressionGrammar (.rule Form.expression.number) [t])
    (hleaves : t.leaves = (l.tokenize text).1) :
    (∃ limit place, parse l text = .error (.tooDeep limit place)) ∨ parse l text = .ok t := by
  obtain hdeep | ⟨haccepts, -⟩ := parse_accepts l text
  · exact .inl hdeep
  have hderives := hgrows.derives
  rw [Tree.leavesOf, Tree.leavesOf, List.append_nil, hleaves] at hderives
  obtain ⟨t', ht'⟩ := haccepts.2 ⟨hnone, hderives⟩
  exact .inr (parse_eq_of_grows hnone hgrows hleaves ht' ▸ ht')

mutual

/-- Where a tree and the trees in it start. -/
def Tree.starts : Tree → List Nat
  | .leaf t => [t.place.offset]
  | .node _ _ place children => place.offset :: Tree.startsOf children

/-- Where several trees and the trees in them start. -/
def Tree.startsOf : List Tree → List Nat
  | [] => []
  | t :: rest => t.starts ++ Tree.startsOf rest

end

theorem Tree.place_mem_starts (t : Tree) : t.place.offset ∈ t.starts := by
  cases t <;> exact List.mem_cons_self

theorem Tree.startsOf_append (ts us : List Tree) : startsOf (ts ++ us) = startsOf ts ++
    startsOf us := by
  induction ts with
  | nil => rfl
  | cons t ts ih => rw [List.cons_append, startsOf, startsOf, ih, List.append_assoc]

/-- The trees that a phrase grows start where tokens of theirs start. -/
theorem Grows.starts {p : Phrase} {ts : List Tree} (h : Grows expressionGrammar p ts) :
    ∀ n ∈ Tree.startsOf ts, n ∈ (Tree.leavesOf ts).map (·.place.offset) := by
  induction h with
  | @rule r es place ts hr hes h starts ih =>
    -- The node has a token, and starts with the first one.
    have hleaves := expressionGrammar_predictive.leaves_ne_nil (.rule hr hes h starts)
    rw [Tree.leavesOf_added, Tree.leaves] at hleaves ⊢
    obtain ⟨t, rest, hcons⟩ := List.exists_cons_of_ne_nil hleaves
    have hplace : place.offset ∈ (Tree.leavesOf ts).map (·.place.offset) := by
      rw [← starts t (by rw [hcons]; rfl), hcons]
      exact List.mem_cons_self
    cases r.hidden with
    | true => exact ih
    | false =>
      rw [Tree.added, if_neg Bool.false_ne_true, Tree.startsOf, Tree.starts, Tree.startsOf,
        List.append_nil]
      exact List.forall_mem_cons.2 ⟨hplace, ih⟩
  | nil | none =>
    intro n hn
    cases hn
  | cons _ _ _ ih ih' | copy _ _ _ ih ih' =>
    rw [Tree.startsOf_append, Tree.leavesOf_append, List.map_append]
    exact List.forall_mem_append.2
      ⟨fun n hn => List.mem_append_left _ (ih n hn), fun n hn => List.mem_append_right _ (ih' n hn)⟩
  | token _ _ ih =>
    rw [Tree.startsOf, Tree.starts, Tree.leavesOf, Tree.leaves]
    exact List.forall_mem_cons.2 ⟨List.mem_cons_self, fun n hn => List.mem_cons_of_mem _ (ih n hn)⟩

theorem starts_of_parse {l : Lexical.Lexer} {text : Text} {t : Tree} (h : parse l text = .ok t) :
    ∀ n ∈ t.starts, n ∈ (l.tokenize text).1.map (·.place.offset) := by
  have hstarts := (parse_grows h).starts
  rw [Tree.startsOf, Tree.startsOf, List.append_nil, Tree.leavesOf, Tree.leavesOf, List.append_nil,
    (parse_sound h).2.1] at hstarts
  exact hstarts

end Formulary.Grammar
