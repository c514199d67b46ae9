import Formulary.Proofs.Build.Negated
import Formulary.Proofs.Grammar.Regrowth

/-!
# Parentheses that change nothing

A pair of parentheses passes on what stands in it. So a node of operators or a chain of names is
built to the same in parentheses, and so are the operands before some operator of a level, since a
level is folded from the left.
-/

namespace Formulary

open Grammar (Form Grows Phrase Rule Surround Tree expressionGrammar expressionRules many one tok)
open Lexical (Kind Lexer Place Token closeParen nowhere openParen)

namespace Grammar

section Inversion

variable {g : RuleSet} {ts : List Tree} {es : List Element} {f : Form}

/-- What a rule grows: a node with the children of one of its alternatives, or these children
alone. -/
theorem Grows.of_rule {id : Nat} (h : Grows g (.rule id) ts) : ∃ r ∈ g.rules, r.id = id ∧
    ∃ es ∈ r.alternatives,
    ∃ place children, Grows g (.elements es) children ∧
      (∀ t ∈ (Tree.leavesOf children).head?, t.place = place) ∧
      ts = (Tree.node r.id r.name place children).added r.hidden := by
  generalize hp : Phrase.rule id = p at h
  cases h with
  | rule hr hes h starts =>
    cases hp
    exact ⟨_, hr, rfl, _, hes, _, _, h, starts, rfl⟩
  | _ => cases hp

theorem Grows.of_one (h : Grows g (.elements (one f :: es)) ts) :
    ∃ us vs, ts = us ++ vs ∧ Grows g (.rule f.number) us ∧ Grows g (.elements es) vs := by
  cases h with
  | @cons _ _ n us vs counts h h' =>
    obtain rfl : n = 1 := Nat.le_antisymm (counts.2 1 rfl) counts.1
    cases h with
    | token he _ => cases he
    | copy he h hnone =>
      cases he
      cases hnone
      exact ⟨_, vs, by rw [List.append_nil], h, h'⟩

theorem Grows.of_tok {k : Kind} (h : Grows g (.elements (tok k :: es)) ts) :
    ∃ t vs, ts = .leaf t :: vs ∧ Grows g (.elements es) vs := by
  cases h with
  | @cons _ _ n us vs counts h h' =>
    obtain rfl : n = 1 := Nat.le_antisymm (counts.2 1 rfl) counts.1
    cases h with
    | token he hnone =>
      cases hnone
      exact ⟨_, vs, rfl, h'⟩
    | copy he _ _ => cases he

theorem Grows.of_copies {n : Nat} (h : Grows g (.copies (many f) n) ts) :
    ∃ tails : List (List Tree), ts = tails.flatten ∧ ∀ us ∈ tails, Grows g (.rule f.number) us := by
  induction n generalizing ts with
  | zero =>
    cases h
    exact ⟨[], rfl, nofun⟩
  | succ n ih =>
    cases h with
    | token he _ => cases he
    | copy he h h' =>
      cases he
      obtain ⟨tails, rfl, htails⟩ := ih h'
      exact ⟨_ :: tails, rfl, List.forall_mem_cons.2 ⟨h, htails⟩⟩

end Inversion

end Grammar

namespace Build

section Forms

variable {f operand tail : Form} {ts : List Tree}

/-- What the rule of a form grows. -/
theorem grows_form (h : Grows expressionGrammar (.rule f.number) ts) :
    ∃ es ∈ (ruleOf f).alternatives,
    ∃ place children, Grows expressionGrammar (.elements es) children ∧
      (∀ t ∈ (Tree.leavesOf children).head?, t.place = place) ∧
      ts = (Grammar.Tree.node f.number (ruleOf f).name place children).added (ruleOf f).hidden := by
  obtain ⟨r, hr, hid, es, hes, place, children, hchildren, hstarts, hts⟩ := h.of_rule
  have hrule := ruleOf_of_mem r hr
  rw [hid, ofNumber?_number] at hrule
  obtain rfl : ruleOf f = r := Option.some.inj hrule
  rw [hid] at hts
  exact ⟨es, hes, place, children, hchildren, hstarts, hts⟩

/-- A form that shows grows a single node. -/
theorem exists_node_of_grows (hshown : (ruleOf f).hidden = false)
    (h : Grows expressionGrammar (.rule f.number) ts) :
    ∃ name place children, ts = [.node f.number name place children] := by
  obtain ⟨-, -, place, children, -, -, hts⟩ := grows_form h
  rw [hshown] at hts
  exact ⟨_, place, children, hts⟩

/-- A level of operators: an operand, and any number of operators each with another operand. -/
structure Level (f operand tail : Form) : Prop where
  member : ruleOf f ∈ expressionRules ∧ (ruleOf f).id = f.number
  shown : (ruleOf f).hidden = false ∧ (ruleOf operand).hidden = false ∧ (ruleOf tail).hidden = true
  alternatives : (ruleOf f).alternatives = [[one operand, many tail]]
  operator : (∃ k, (ruleOf tail).alternatives = [[tok k, one operand]]) ∨
    ∃ o ks, (ruleOf o).hidden = true ∧ (ruleOf o).alternatives =
      (ks : List Kind).map (fun k => [tok k]) ∧
      (ruleOf tail).alternatives = [[one o, one operand]]

def operators : List (Form × Form × Form) :=
  [(.xor, .or, .xorTail), (.or, .and, .orTail), (.and, .not, .andTail),
    (.shift, .compare, .shiftTail), (.compare, .sum, .compareTail), (.sum, .product, .sumTail),
    (.product, .power, .productTail), (.power, .negate, .powerTail)]

theorem level_of_mem (h : (f, operand, tail) ∈ operators) : Level f operand tail := by
  simp only [operators, List.mem_cons, Prod.mk.injEq, List.not_mem_nil, or_false] at h
  rcases h with ⟨rfl, rfl, rfl⟩ | ⟨rfl, rfl, rfl⟩ | ⟨rfl, rfl, rfl⟩ | ⟨rfl, rfl,
    rfl⟩ | ⟨rfl, rfl, rfl⟩ |
    ⟨rfl, rfl, rfl⟩ | ⟨rfl, rfl, rfl⟩ | ⟨rfl, rfl, rfl⟩
  · exact ⟨by decide, by decide, rfl, .inl ⟨.xor, rfl⟩⟩
  · exact ⟨by decide, by decide, rfl, .inl ⟨.or, rfl⟩⟩
  · exact ⟨by decide, by decide, rfl, .inl ⟨.and, rfl⟩⟩
  · exact ⟨by decide, by decide, rfl, .inr ⟨.shiftOperator,
      [.shiftLeft, .shiftRight], by decide, rfl, rfl⟩⟩
  · exact ⟨by decide, by decide, rfl, .inr ⟨.compareOperator,
      [.equal, .notEqual, .less, .lessEqual, .greater, .greaterEqual], by decide, rfl, rfl⟩⟩
  · exact ⟨by decide, by decide, rfl, .inr ⟨.sumOperator, [.plus, .minus], by decide, rfl, rfl⟩⟩
  · exact ⟨by decide, by decide, rfl, .inr ⟨.productOperator,
      [.times, .divide, .mod], by decide, rfl, rfl⟩⟩
  · exact ⟨by decide, by decide, rfl, .inl ⟨.power, rfl⟩⟩

theorem Level.grows_tail (h : Level f operand tail) {us : List Tree}
    (hus : Grows expressionGrammar (.rule tail.number) us) :
    ∃ t y, us = [.leaf t, y] ∧ Grows expressionGrammar (.rule operand.number) [y] := by
  obtain ⟨es, hes, place, children, hchildren, -, rfl⟩ := grows_form hus
  rw [h.shown.2.2]
  -- The operator is a token of the tail itself, or one of a hidden rule.
  have hsplit : ∃ t vs, children = .leaf t :: vs ∧
      Grows expressionGrammar (.elements [one operand]) vs := by
    rcases h.operator with ⟨k, hk⟩ | ⟨o, ks, hidden, hks, ho⟩
    · rw [hk, List.mem_singleton] at hes
      subst hes
      exact hchildren.of_tok
    · rw [ho, List.mem_singleton] at hes
      subst hes
      obtain ⟨us, vs, rfl, hoperator, hoperand⟩ := hchildren.of_one
      obtain ⟨es, hes, place, children, htoken, -, rfl⟩ := grows_form hoperator
      rw [hks, List.mem_map] at hes
      obtain ⟨k, -, rfl⟩ := hes
      obtain ⟨t, rest, rfl, hrest⟩ := htoken.of_tok
      cases hrest
      rw [hidden]
      exact ⟨t, vs, rfl, hoperand⟩
  obtain ⟨t, vs, rfl, hvs⟩ := hsplit
  obtain ⟨ys, rest, rfl, hy, hrest⟩ := hvs.of_one
  cases hrest
  obtain ⟨name, place', inner, rfl⟩ := exists_node_of_grows h.shown.2.1 hy
  exact ⟨t, _, rfl, hy⟩

/-- The children of a level. -/
theorem Level.children (h : Level f operand tail) {name : String} {place : Place} {ts : List Tree}
    (hnode : Grows expressionGrammar (.rule f.number) [.node f.number name place ts]) :
    ∃ (a : Tree) (tails : List (List Tree)), ts = a :: tails.flatten ∧ name = (ruleOf f).name ∧
      (∀ t ∈ (Tree.leavesOf ts).head?, t.place = place) ∧
      Grows expressionGrammar (.rule operand.number) [a] ∧
      ∀ us ∈ tails, Grows expressionGrammar (.rule tail.number) us := by
  obtain ⟨es, hes, place', children, hchildren, hstarts, hts⟩ := grows_form hnode
  rw [h.shown.1] at hts
  cases hts
  rw [h.alternatives, List.mem_singleton] at hes
  subst hes
  obtain ⟨us, vs, rfl, hfirst, hvs⟩ := hchildren.of_one
  obtain ⟨name, place', inner, rfl⟩ := exists_node_of_grows h.shown.2.1 hfirst
  cases hvs with
  | cons counts hcopies hnil =>
    cases hnil
    obtain ⟨tails, rfl, htails⟩ := hcopies.of_copies
    exact ⟨_, tails, by rw [List.append_nil]; rfl, rfl, hstarts, hfirst, htails⟩

/-- An operand and any number of operators with operands make a level. -/
theorem Level.grows (h : Level f operand tail) {a : Tree} {tails : List (List Tree)} {place : Place}
    (ha : Grows expressionGrammar (.rule operand.number) [a])
    (htails : ∀ us ∈ tails, Grows expressionGrammar (.rule tail.number) us)
    (hstarts : ∀ t ∈ (Tree.leavesOf (a :: tails.flatten)).head?, t.place = place) :
    Grows expressionGrammar (.rule f.number) [.node f.number (ruleOf f).name place
      (a :: tails.flatten)] := by
  have hcopies : ∃ n, Grows expressionGrammar (.copies (many tail) n) tails.flatten := by
    clear hstarts
    induction tails with
    | nil => exact ⟨0, .none⟩
    | cons us tails ih =>
      obtain ⟨hus, htails⟩ := List.forall_mem_cons.1 htails
      obtain ⟨n, hn⟩ := ih htails
      exact ⟨n + 1, .copy rfl hus hn⟩
  obtain ⟨n, hcopies⟩ := hcopies
  have hmany : Grows expressionGrammar (.elements [many tail]) tails.flatten := by
    have hcons := Grows.cons (e := many tail) ⟨Nat.zero_le n, fun _ hm => by cases hm⟩ hcopies .nil
    rwa [List.append_nil] at hcons
  have hes : [one operand, many tail] ∈ (ruleOf f).alternatives := by
    rw [h.alternatives]
    exact List.mem_singleton_self _
  have hnode := Grows.rule h.member.1 hes (grows_once (Nat.le_refl 1) rfl rfl ha hmany) hstarts
  rwa [h.member.2, h.shown.1] at hnode

/-- Before an operator of a level stand whole operands and operators. -/
theorem split_level {a : Tree} {tails : List (List Tree)} (ha : ∀ u, a ≠ .leaf u)
    (htails : ∀ us ∈ tails, ∃ t y, us = [.leaf t, y] ∧ ∀ u, y ≠ .leaf u)
    {before after : List Tree} {op : Token}
    (h : a :: tails.flatten = before ++ Grammar.Tree.leaf op :: after) :
    ∃ front back, tails = front ++ back ∧ before = a :: front.flatten ∧
      .leaf op :: after = back.flatten := by
  induction tails generalizing a before with
  | nil =>
    cases before with
    | nil => exact absurd (List.cons.inj h).1 (ha op)
    | cons x before => simp at h
  | cons us tails ih =>
    obtain ⟨⟨t, y, rfl, hy⟩, hmore⟩ := List.forall_mem_cons.1 htails
    cases before with
    | nil => exact absurd (List.cons.inj h).1 (ha op)
    | cons x before =>
      obtain ⟨hx, hrest⟩ := List.cons.inj h
      cases before with
      | nil => exact ⟨[], [.leaf t, y] :: tails, rfl, by rw [hx]; rfl, hrest.symm⟩
      | cons z before =>
        obtain ⟨hz, hrest⟩ := List.cons.inj hrest
        obtain ⟨front, back, rfl, rfl, hback⟩ := ih hy hmore hrest
        exact ⟨[.leaf t, y] :: front, back, rfl, by rw [hx, ← hz]; rfl, hback⟩

end Forms

section Ladder

/-- The forms whose nodes can be put in parentheses, from the inside. Each can consist of the one
before alone. -/
def ladder : List Form := .chain :: .negate :: levels

def above (f : Form) : List Form := ladder.drop (ladder.idxOf f + 1)

def below (f : Form) : List Form := (ladder.take (ladder.idxOf f + 1)).tail

theorem above_chain : ∀ f ∈ ladder, above f ⊆ .negate :: levels ∧ (f :: above f).IsChain Passes ∧
    (f :: above f).getLast (List.cons_ne_nil f (above f)) = .expression := by decide

theorem below_chain : ∀ f ∈ ladder, below f ⊆ .negate :: levels ∧
    (.chain :: below f).IsChain Passes ∧
    (.chain :: below f).getLast (List.cons_ne_nil .chain (below f)) = f := by decide

variable {f g : Form}

/-- What a form of the ladder is built to is a value. -/
theorem value_of_grows {s : Scope} (hf : f ∈ ladder) {t : Tree}
    (h : Grows expressionGrammar (.rule f.number) [t])
    {a : Attribute} (ha : build s t = .ok a) : ∃ e, a = .value e := by
  have hall := steady_of_grows (resolutionOf s) h
  have hbuild : (resolutionOf s).build t = .ok a :=
    mapError_eq_ok.1 ((Resolution.outcome_build s t).trans ha)
  rw [Resolution.buildAll, hbuild] at hall
  obtain ⟨g, hg, hadmits⟩ := hall
  rw [ofNumber?_number] at hg
  cases hg
  have hshape : [a.shape] = [.value] := by
    simp only [ladder, levels, List.mem_cons, List.not_mem_nil, or_false] at hf
    rcases hf with rfl | rfl | rfl | rfl | rfl | rfl | rfl | rfl | rfl | rfl | rfl | rfl | rfl <;>
      exact hadmits
  cases a <;> cases hshape
  exact ⟨_, rfl⟩

/-- A node of one form of the ladder makes, in parentheses, a node of any other, which is built to
the same. -/
theorem exists_enclosed (hf : f ∈ ladder) (hg : g ∈ ladder) {t : Tree} (opener close : Token)
    (hopen : opener.kind = .parenOpen) (hclose : close.kind = .parenClose)
    (hplace : ∀ u ∈ t.leaves.head?, u.place = opener.place)
    (h : Grows expressionGrammar (.rule f.number) [t]) :
    ∃ u, Grows expressionGrammar (.rule g.number) [u] ∧ u.leaves = opener :: (t.leaves ++ [close]) ∧
      u.place = opener.place ∧ ∀ s e, build s t = .ok (.value e) → build s u = .ok (.value e) := by
  obtain ⟨habove, hup, hexpression⟩ := above_chain f hf
  obtain ⟨hbelow, hdown, hform⟩ := below_chain g hg
  have hinner := grows_wrapped hup hplace h
  rw [hexpression] at hinner
  have henclosed := grows_enclosed hopen hclose hinner
  have hleaves : (enclosed opener close (wrapped opener.place (above f) t)).leaves =
      opener :: (t.leaves ++ [close]) := by
    rw [leaves_enclosed, leaves_wrapped]
  have hopens : ∀ u ∈ (enclosed opener close (wrapped opener.place (above f) t)).leaves.head?,
      u.place = opener.place := by
    rw [hleaves]
    exact fun u hu => by cases hu; rfl
  have houter := grows_wrapped hdown hopens henclosed
  rw [hform] at houter
  refine ⟨_, houter, by rw [leaves_wrapped, hleaves], place_wrapped _ rfl, fun s e he => ?_⟩
  exact build_wrapped hbelow (build_enclosed (build_wrapped habove he))

end Ladder

section Building

variable {s : Scope}

theorem buildAll_append_eq_ok {ts us : List Tree} {parts : List Part} :
    buildAll s (ts ++ us) = .ok parts ↔
      ∃ ps qs, buildAll s ts = .ok ps ∧ buildAll s us = .ok qs ∧ parts = ps ++ qs := by
  induction ts generalizing parts with
  | nil =>
    constructor
    · intro h
      exact ⟨[], parts, rfl, h, rfl⟩
    · rintro ⟨ps, qs, hps, hqs, rfl⟩
      cases hps
      exact hqs
  | cons t ts ih =>
    constructor
    · intro h
      obtain ⟨a, ha, h⟩ := bind_eq_ok.1 h
      obtain ⟨rest, hrest, h⟩ := bind_eq_ok.1 h
      cases h
      obtain ⟨ps, qs, hps, hqs, rfl⟩ := ih.1 hrest
      exact ⟨⟨t.place, a⟩ :: ps, qs, by rw [buildAll, ha, hps]; rfl, hqs, rfl⟩
    · rintro ⟨ps, qs, hps, hqs, rfl⟩
      obtain ⟨a, ha, hps⟩ := bind_eq_ok.1 hps
      obtain ⟨rest, hrest, hps⟩ := bind_eq_ok.1 hps
      cases hps
      rw [List.cons_append, buildAll, ha, ih.2 ⟨rest, qs, hrest, hqs, rfl⟩]
      rfl

theorem length_of_buildAll {ts : List Tree} {parts : List Part} (h : buildAll s ts = .ok parts) :
    parts.length = ts.length := by
  induction ts generalizing parts with
  | nil =>
    cases h
    rfl
  | cons t ts ih =>
    obtain ⟨a, ha, h⟩ := bind_eq_ok.1 h
    obtain ⟨rest, hrest, h⟩ := bind_eq_ok.1 h
    cases h
    rw [List.length_cons, List.length_cons, ih hrest]

/-- Operators and operands are folded one pair after the other. -/
theorem fold_append {apply : Kind → Element → Element → Except Failure Element} {n : Nat}
    {ps qs : List Part}
    (hn : ps.length = 2 * n) {acc e : Element} (h : fold apply acc (ps ++ qs) = .ok e) :
    ∃ mid, fold apply acc ps = .ok mid ∧ fold apply mid qs = .ok e := by
  induction n generalizing ps acc with
  | zero =>
    obtain rfl := List.length_eq_zero_iff.1 hn
    exact ⟨acc, rfl, h⟩
  | succ n ih =>
    rcases ps with _ | ⟨op, _ | ⟨operand, ps⟩⟩
    · simp at hn
    · simp at hn
      omega
    · simp only [List.cons_append, fold] at h ⊢
      split at h
      · rename_i t ht
        obtain ⟨r, hr, h⟩ := bind_eq_ok.1 h
        obtain ⟨acc', hacc, h⟩ := bind_eq_ok.1 h
        obtain ⟨mid, hmid, hrest⟩ := ih (by simp at hn; omega) h
        exact ⟨mid, bind_eq_ok.2 ⟨r, hr, bind_eq_ok.2 ⟨acc', hacc, hmid⟩⟩, hrest⟩
      · cases h

/-- A level is a chain of its operators. -/
theorem combine_level (s : Scope) {f operand tail : Form} (hf : (f, operand, tail) ∈ operators) :
    ∃ apply, ∀ name parts, combine s f name parts = operatorChain apply parts := by
  simp only [operators, List.mem_cons, Prod.mk.injEq, List.not_mem_nil, or_false] at hf
  rcases hf with ⟨rfl, -⟩ | ⟨rfl, -⟩ | ⟨rfl, -⟩ | ⟨rfl, -⟩ | ⟨rfl, -⟩ | ⟨rfl, -⟩ | ⟨rfl,
    -⟩ | ⟨rfl, -⟩ <;>
    exact ⟨_, fun _ _ => rfl⟩

/-- The first operands of a level can be replaced by what they are built to together. -/
theorem build_level {f operand tail : Form} (hf : (f, operand, tail) ∈ operators)
    {name : String} {place : Place}
    {a : Tree} {front back : List Tree} {n : Nat} (hn : front.length = 2 * n) {r : Attribute}
    (h : build s (.node f.number name place (a :: front ++ back)) = .ok r) :
    ∃ e, build s (.node f.number name place (a :: front)) = .ok (.value e) ∧
      ∀ u, build s u = .ok (.value e) → build s
        (.node f.number name place (u :: back)) = .ok r := by
  obtain ⟨apply, happly⟩ := combine_level s hf
  have hnode : ∀ ts parts, buildAll s ts = .ok parts → build s (.node f.number name place ts) =
      placedAt place.offset (operatorChain apply parts) := by
    intro ts parts hparts
    rw [build, hparts, ofNumber?_number, ← happly name]
    rfl
  obtain ⟨parts, hparts, hr⟩ := bind_eq_ok.1 h
  rw [ofNumber?_number] at hr
  simp only [happly] at hr
  replace hr := placedAt_eq_ok.1 hr
  obtain ⟨x, hx, hparts⟩ := bind_eq_ok.1 hparts
  obtain ⟨rest, hrest, hparts⟩ := bind_eq_ok.1 hparts
  cases hparts
  obtain ⟨ps, qs, hps, hqs, rfl⟩ := buildAll_append_eq_ok.1 hrest
  obtain ⟨acc, hacc, hr⟩ := bind_eq_ok.1 hr
  obtain ⟨e, he, rfl⟩ := map_eq_ok.1 hr
  obtain ⟨mid, hmid, hlast⟩ := fold_append ((length_of_buildAll hps).trans hn) he
  refine ⟨mid, ?_, fun u hu => ?_⟩
  · have hfront : buildAll s (a :: front) = .ok (⟨a.place, x⟩ :: ps) := by
      rw [buildAll, hx, hps]
      rfl
    rw [hnode _ _ hfront, placedAt_eq_ok]
    exact bind_eq_ok.2 ⟨acc, hacc, map_eq_ok.2 ⟨mid, hmid, rfl⟩⟩
  · have hback : buildAll s (u :: back) = .ok (⟨u.place, .value mid⟩ :: qs) := by
      rw [buildAll, hu, hqs]
      rfl
    rw [hnode _ _ hback, placedAt_eq_ok]
    exact bind_eq_ok.2 ⟨mid, rfl, map_eq_ok.2 ⟨e, hlast, rfl⟩⟩

/-- A part of a tree can be replaced by another one at the same place that is built to the same. -/
theorem build_plug {u u' : Tree} (hplace : u'.place = u.place)
    (h : ∀ a, build s u = .ok a → build s u' = .ok a)
    (c : Surround) {a : Attribute} (ha : build s (c.plug u) = .ok a) :
    build s (c.plug u') = .ok a := by
  induction c generalizing a with
  | here => exact h a ha
  | inside rule name place before c after ih =>
    have hat : (c.plug u').place = (c.plug u).place := by
      cases c with
      | here => exact hplace
      | inside => rfl
    obtain ⟨parts, hparts, ha⟩ := bind_eq_ok.1 ha
    obtain ⟨ps, qs, hps, hqs, rfl⟩ := buildAll_append_eq_ok.1 hparts
    obtain ⟨x, hx, hqs⟩ := bind_eq_ok.1 hqs
    obtain ⟨rest, hrest, hqs⟩ := bind_eq_ok.1 hqs
    cases hqs
    refine bind_eq_ok.2 ⟨_, buildAll_append_eq_ok.2 ⟨ps, _, hps, ?_, rfl⟩, ha⟩
    rw [buildAll, ih hx, hrest, hat]
    rfl

end Building

section Groups

/-- The trees before each leaf among some. -/
def beforeLeaves : List Tree → List (List Tree)
  | [] => []
  | .leaf t :: ts => [] :: (beforeLeaves ts).map (.leaf t :: ·)
  | t :: ts => (beforeLeaves ts).map (t :: ·)

/-- What of a node can be put in parentheses: the node itself, if it is one of operators or a chain
of names, and all that stands before an operator of its level. -/
def ownGroups (rule : Nat) (name : String) (place : Place) (children : List Tree) :
    List (List Tree) :=
  (if ladder.any (·.number == rule) then [[Grammar.Tree.node rule name place children]] else []) ++
    if operators.any (·.1.number == rule) then beforeLeaves children else []

mutual

/-- The trees side by side in a tree that can be put in parentheses. -/
def groups : Tree → List (List Tree)
  | .leaf _ => []
  | .node rule name place children => ownGroups rule name place children ++ groupsOf children

def groupsOf : List Tree → List (List Tree)
  | [] => []
  | t :: ts => groups t ++ groupsOf ts

end

variable {ts : List Tree}

theorem mem_beforeLeaves {us : List Tree} (h : us ∈ beforeLeaves ts) : ∃ op after, ts = us ++
    Grammar.Tree.leaf op :: after := by
  induction ts generalizing us with
  | nil => cases h
  | cons t ts ih =>
    cases t with
    | leaf t =>
      rcases List.mem_cons.1 h with rfl | h
      · exact ⟨t, ts, rfl⟩
      · obtain ⟨vs, hvs, rfl⟩ := List.mem_map.1 h
        obtain ⟨op, after, rfl⟩ := ih hvs
        exact ⟨op, after, rfl⟩
    | node rule name place children =>
      obtain ⟨vs, hvs, rfl⟩ := List.mem_map.1 h
      obtain ⟨op, after, rfl⟩ := ih hvs
      exact ⟨op, after, rfl⟩

mutual

theorem exists_of_mem_groups (t : Tree) (h : ts ∈ groups t) :
    ∃ (c : Surround) (rule : Nat) (name : String) (place : Place)
    (children : List Tree), t = c.plug (.node rule name place children) ∧
    ts ∈ ownGroups rule name place children := by
  cases t with
  | leaf t => cases h
  | node rule name place children =>
    rcases List.mem_append.1 h with h | h
    · exact ⟨.here, rule, name, place, children, rfl, h⟩
    · obtain ⟨before, after, c, rule', name', place', children', hchildren, hts⟩ :=
        exists_of_mem_groupsOf children h
      exact ⟨.inside rule name place before c after, rule', name', place',
        children', by rw [hchildren]; rfl, hts⟩

theorem exists_of_mem_groupsOf (us : List Tree) (h : ts ∈ groupsOf us) :
    ∃ (before after : List Tree) (c : Surround)
    (rule : Nat) (name : String) (place : Place) (children : List Tree),
      us = before ++ c.plug (.node rule name place children) :: after ∧
        ts ∈ ownGroups rule name place children := by
  cases us with
  | nil => cases h
  | cons u us =>
    rcases List.mem_append.1 h with h | h
    · obtain ⟨c, rule, name, place, children, rfl, hts⟩ := exists_of_mem_groups u h
      exact ⟨[], us, c, rule, name, place, children, rfl, hts⟩
    · obtain ⟨before, after, c, rule, name, place, children, rfl, hts⟩ :=
        exists_of_mem_groupsOf us h
      exact ⟨u :: before, after, c, rule, name, place, children, rfl, hts⟩

end

theorem groups_subset {t : Tree} {us : List Tree} (h : t ∈ us) : groups t ⊆ groupsOf us := by
  induction us with
  | nil => cases h
  | cons u us ih =>
    rcases List.mem_cons.1 h with rfl | h
    · exact List.subset_append_left _ _
    · exact fun x hx => List.mem_append_right _ (ih h hx)

/-- What can be put in parentheses is what belongs to any node of the tree. -/
theorem mem_groups_iff {t : Tree} : ts ∈ groups t ↔
    ∃ (c : Surround) (rule : Nat) (name : String) (place : Place)
    (children : List Tree), t = c.plug (.node rule name place children) ∧
    ts ∈ ownGroups rule name place children := by
  constructor
  · exact exists_of_mem_groups t
  · rintro ⟨c, rule, name, place, children, rfl, h⟩
    induction c with
    | here => exact List.mem_append_left _ h
    | inside rule' name' place' before c after ih =>
      exact List.mem_append_right _ (groups_subset (List.mem_append_right _ List.mem_cons_self) ih)

/-- A tree like another one but for parentheses around its first children, which is built to the
same. -/
structure Encloses (ts : List Tree) (u u' : Tree) : Prop where
  place : u'.place = u.place
  leaves : ∃ back, u.leaves = Tree.leavesOf ts ++ back ∧
    u'.leaves.map Token.bare =
      (openParen :: (Tree.leavesOf ts ++ closeParen :: back)).map Token.bare
  build : ∀ s a, build s u = .ok a → build s u' = .ok a

theorem shown_of_mem_ladder : ∀ f ∈ ladder, (ruleOf f).hidden = false := by decide

/-- The place of a node is that of its first token. -/
theorem place_of_grows {f : Form} (hshown : (ruleOf f).hidden = false) {name : String}
    {place : Place} {children : List Tree}
    (h : Grows expressionGrammar (.rule f.number) [.node f.number name place children]) :
    ∀ u ∈ (Tree.leavesOf children).head?, u.place = place := by
  obtain ⟨es, hes, place', children', hchildren, hstarts, hts⟩ := grows_form h
  rw [hshown] at hts
  cases hts
  exact hstarts

theorem mem_ladder_of_operators {f operand tail : Form} (h : (f, operand, tail) ∈ operators) :
    f ∈ ladder ∧ operand ∈ ladder := by
  have hall : ∀ l ∈ operators, l.1 ∈ ladder ∧ l.2.1 ∈ ladder := by decide
  exact hall _ h

/-- An opening parenthesis at a place. -/
def openingAt (place : Place) : Token := { openParen with place := place }

@[simp] theorem bare_openingAt (place : Place) : (openingAt place).bare = openParen.bare := rfl

/-- A node in parentheses. -/
theorem encloses_node {f : Form} (hf : f ∈ ladder) {name : String} {place : Place}
    {children : List Tree}
    (h : Grows expressionGrammar (.rule f.number) [.node f.number name place children]) :
    ∃ u, Grows expressionGrammar (.rule f.number) [u] ∧
      Encloses [.node f.number name place children] (.node f.number name place children) u := by
  have hplace : ∀ u ∈ (Grammar.Tree.node f.number name place children).leaves.head?,
      u.place = (openingAt place).place :=
    place_of_grows (shown_of_mem_ladder f hf) h
  obtain ⟨u, hu, hleaves, hat, hbuild⟩ := exists_enclosed hf hf _ closeParen rfl rfl hplace h
  refine ⟨u, hu, hat, ⟨[], by simp [Tree.leavesOf], ?_⟩, fun s a ha => ?_⟩
  · simp [hleaves, Tree.leavesOf]
  · obtain ⟨e, rfl⟩ := value_of_grows hf h ha
    exact hbuild s e ha

theorem length_flatten_pairs {tails : List (List Tree)} (h : ∀ us ∈ tails, us.length = 2) :
    tails.flatten.length = 2 * tails.length := by
  induction tails with
  | nil => rfl
  | cons us tails ih =>
    obtain ⟨hus, hmore⟩ := List.forall_mem_cons.1 h
    rw [List.flatten_cons, List.length_append, List.length_cons, hus, ih hmore]
    omega

/-- The first operands of a level in parentheses. -/
theorem encloses_operands {f operand tail : Form} (hf : (f, operand, tail) ∈ operators)
    {name : String} {place : Place} {before after : List Tree} {op : Token}
    (h : Grows expressionGrammar (.rule f.number)
      [.node f.number name place (before ++ Grammar.Tree.leaf op :: after)]) :
    ∃ u, Grows expressionGrammar (.rule f.number) [u] ∧
      Encloses before (.node f.number name place (before ++ Grammar.Tree.leaf op :: after)) u := by
  have level := level_of_mem hf
  obtain ⟨a, tails, hsplit, rfl, hstarts, ha, htails⟩ := level.children h
  have hnode : ∀ {t : Tree}, Grows expressionGrammar (.rule operand.number) [t] → ∀ u,
      t ≠ .leaf u := by
    intro t ht u
    obtain ⟨name, place, children, hchildren⟩ := exists_node_of_grows level.shown.2.1 ht
    rw [(List.cons.inj hchildren).1]
    exact nofun
  have hpairs : ∀ us ∈ tails, ∃ t y, us = [.leaf t, y] ∧ ∀ u, y ≠ .leaf u := by
    intro us hus
    obtain ⟨t, y, rfl, hy⟩ := level.grows_tail (htails us hus)
    exact ⟨t, y, rfl, hnode hy⟩
  obtain ⟨front, back, rfl, rfl, hback⟩ := split_level (hnode ha) hpairs hsplit.symm
  rw [hback] at h hstarts ⊢
  obtain ⟨hfront, hrest⟩ := List.forall_mem_append.1 htails
  -- The operands before the operator make a level of their own, which stands in the place of the
  -- first one.
  have hplace : ∀ u ∈ (Tree.leavesOf (a :: front.flatten)).head?, u.place = place := by
    intro u hu
    refine hstarts u ?_
    rw [Tree.leavesOf_append, List.head?_append, Option.mem_def.1 hu]
    rfl
  have hinner := level.grows ha hfront hplace
  obtain ⟨hform, hoperand⟩ := mem_ladder_of_operators hf
  obtain ⟨u, hu, hleaves, -, hbuild⟩ := exists_enclosed
    (t := .node f.number (ruleOf f).name place (a :: front.flatten))
    hform hoperand (openingAt place) closeParen rfl rfl hplace hinner
  have hopens : ∀ t ∈ (Tree.leavesOf (u :: back.flatten)).head?, t.place = place := by
    rw [Tree.leavesOf, hleaves]
    exact fun t ht => by cases ht; rfl
  have houter := level.grows hu hrest hopens
  refine ⟨_, houter, rfl,
    ⟨Tree.leavesOf back.flatten, by rw [Tree.leaves, Tree.leavesOf_append], ?_⟩,
    fun s r hr => ?_⟩
  · simp [Tree.leaves, Tree.leavesOf, hleaves]
  · have hlength : front.flatten.length = 2 * front.length := by
      refine length_flatten_pairs fun us hus => ?_
      obtain ⟨t, y, rfl, -⟩ := hpairs us (List.mem_append_left _ hus)
      rfl
    obtain ⟨e, he, hother⟩ := build_level hf hlength hr
    exact hother u (hbuild s e he)

/-- Whatever can be put in parentheses, the node that it belongs to is built to the same with
them. -/
theorem exists_encloses {rule : Nat} {name : String} {place : Place} {children : List Tree}
    (hts : ts ∈ ownGroups rule name place children)
    (h : Grows expressionGrammar (.rule rule) [.node rule name place children]) :
    ∃ u, Grows expressionGrammar (.rule rule) [u] ∧
      Encloses ts (.node rule name place children) u := by
  rcases List.mem_append.1 hts with hnode | hbefore
  · split at hnode
    · rename_i hladder
      obtain ⟨f, hf, hrule⟩ := List.any_eq_true.1 hladder
      obtain rfl := beq_iff_eq.1 hrule
      obtain rfl := List.mem_singleton.1 hnode
      exact encloses_node hf h
    · cases hnode
  · split at hbefore
    · rename_i hlevel
      obtain ⟨⟨f, operand, tail⟩, hf, hrule⟩ := List.any_eq_true.1 hlevel
      obtain rfl : f.number = rule := beq_iff_eq.1 hrule
      obtain ⟨op, after, rfl⟩ := mem_beforeLeaves hbefore
      exact encloses_operands hf h
    · cases hbefore

/-- A text with the part that some trees stand for in parentheses. -/
def enclosing (text : Text) (ts : List Tree) : Text :=
  match (Tree.leavesOf ts).head?, (Tree.leavesOf ts).getLast? with
  | some first, some last => Lexical.grouped text first.place.offset last.stop
  | _, _ => text

/-- Parentheses around what can be put in them change nothing about the element of a text, unless
they nest too deeply. -/
theorem element_enclosing {o : Lexical.Options} (hpoint : o.decimalPoint = 0x2E)
    (hcomma : o.separator = 0x2C)
    {text : Text} {t : Tree} (ht : Grammar.parse (.ofOptions o) text = .ok t)
    (hts : ts ∈ groups t) :
    (∃ limit place, Grammar.parse (.ofOptions o) (enclosing text ts) =
      .error (.tooDeep limit place)) ∨
      ∃ t', Grammar.parse (.ofOptions o) (enclosing text ts) = .ok t' ∧
        ∀ s e, element s t = .ok e → element s t' = .ok e := by
  unfold enclosing
  split
  · rename_i first last hfirst hlast
    obtain ⟨c, rule, name, place, children, rfl, hown⟩ := mem_groups_iff.1 hts
    obtain ⟨hnode, -⟩ := (Grammar.parse_grows ht).replaces [] [] c rule name place children rfl
    obtain ⟨u, hu, henclosed⟩ := exists_encloses hown hnode
    obtain ⟨back, hleaves, hleaves'⟩ := henclosed.leaves
    obtain ⟨hnone, htokens, -⟩ := Grammar.parse_sound ht
    have hread : ((Lexer.ofOptions o).read text).1 =
        (c.front ++ (Tree.leavesOf ts ++ (back ++ c.back))).map .token := by
      rw [Grammar.read_of_tokenize hnone, ← htokens, Surround.leaves_plug, hleaves,
        List.append_assoc]
    obtain ⟨us, hus, hbare⟩ := Lexical.read_grouped hpoint hcomma hfirst hlast hread
    refine (Grammar.parse_replaced ht hu hus ?_).imp id ?_
    · rw [hbare, Surround.leaves_plug, List.map_append, List.map_append, List.map_append, hleaves']
      simp
    · rintro ⟨t', ht', hmoved⟩
      refine ⟨t', ht', fun s e he => ?_⟩
      have hplug := build_plug henclosed.place (henclosed.build s) c (element_eq_ok he)
      have helement : element s (c.plug u) = .ok e := by
        rw [element, hplug]
        rfl
      rw [← toOption_eq_some] at helement ⊢
      rw [← element_moved s nowhere t', hmoved, element_moved, helement]
  · exact .inr ⟨t, ht, fun _ _ he => he⟩

end Groups

end Build

end Formulary
