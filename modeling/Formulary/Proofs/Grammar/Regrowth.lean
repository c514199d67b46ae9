import Formulary.Proofs.Grammar.Acceptance
import Formulary.Proofs.Lexical.Grouped

/-!
# Trees with other parts

A node of a tree can be replaced by another one that the same rule grows, and the tokens of a tree
by others of the same kinds: what results grows as well, once its nodes have the places of their
first tokens.
-/

namespace Formulary.Grammar

open Lexical (Lexer Place Token nowhere)

inductive Surround where
  | here
  | inside (rule : Nat) (name : String) (place : Place) (before : List Tree) (c : Surround)
      (after : List Tree)

namespace Surround

def plug : Surround → Tree → Tree
  | .here, u => u
  | .inside rule name place before c after, u => .node rule name place (before ++ c.plug u :: after)

def front : Surround → List Token
  | .here => []
  | .inside _ _ _ before c _ => Tree.leavesOf before ++ c.front

def back : Surround → List Token
  | .here => []
  | .inside _ _ _ _ c after => c.back ++ Tree.leavesOf after

theorem leaves_plug (c : Surround) (u : Tree) : (c.plug u).leaves = c.front ++
    (u.leaves ++ c.back) := by
  induction c with
  | here => simp [plug, front, back]
  | inside rule name place before c after ih =>
    simp [plug, front, back, Tree.leaves, Tree.leavesOf, ih]

end Surround

section Replaced

variable {g : RuleSet} {p : Phrase} {ts : List Tree}

/-- A node that shows, from its children; its place is that of its first token. -/
theorem Grows.node {r : Rule} {es : List Element} (hr : r ∈ g.rules) (hes : es ∈ r.alternatives)
    (h : Grows g (.elements es) ts) : ∃ place,
    Grows g (.rule r.id) ((Tree.node r.id r.name place ts).added r.hidden) := by
  refine ⟨((Tree.leavesOf ts).head?.map (·.place)).getD default, .rule hr hes h fun t ht => ?_⟩
  rw [Option.mem_def.1 ht]
  rfl

theorem movedAll_added_eq {r : Rule} {place place' : Place} {ts ts' : List Tree}
    (h : Tree.movedAll nowhere ts = Tree.movedAll nowhere ts') :
    Tree.movedAll nowhere ((Tree.node r.id r.name place ts).added r.hidden) =
      Tree.movedAll nowhere ((Tree.node r.id r.name place' ts').added r.hidden) := by
  simp only [Tree.movedAll_added, Tree.moved, h]
  rfl

/-- What grows with some tokens grows with others of the same kinds and spellings. -/
theorem Grows.relabelled (h : Grows g p ts) {us : List Token}
    (hus : us.map Token.bare = (Tree.leavesOf ts).map Token.bare) :
    ∃ ts', Grows g p ts' ∧ Tree.leavesOf ts' = us ∧
      Tree.movedAll nowhere ts' = Tree.movedAll nowhere ts := by
  induction h generalizing us with
  | @rule r es place ts hr hes _ _ ih =>
    rw [Tree.leavesOf_added, Tree.leaves] at hus
    obtain ⟨ts', hgrows, hleaves, hbare⟩ := ih hus
    obtain ⟨place', hnode⟩ := hgrows.node hr hes
    exact ⟨_, hnode, by rw [Tree.leavesOf_added, Tree.leaves, hleaves], movedAll_added_eq hbare⟩
  | nil => exact ⟨[], .nil, (List.map_eq_nil_iff.1 hus).symm, rfl⟩
  | cons counts _ _ ih ih' =>
    rw [Tree.leavesOf_append, List.map_append] at hus
    obtain ⟨us, us', rfl, hus, hus'⟩ := List.map_eq_append_iff.1 hus
    obtain ⟨ts, hgrows, rfl, hbare⟩ := ih hus
    obtain ⟨ts', hgrows', rfl, hbare'⟩ := ih' hus'
    exact ⟨ts ++ ts', .cons counts hgrows hgrows', Tree.leavesOf_append ts ts', by
      rw [Tree.movedAll_append, Tree.movedAll_append, hbare, hbare']⟩
  | none => exact ⟨[], .none, (List.map_eq_nil_iff.1 hus).symm, rfl⟩
  | @token e t n ts he _ ih =>
    obtain ⟨u, us, rfl, hu, htail⟩ := List.map_eq_cons_iff.1 hus
    obtain ⟨ts', hgrows, rfl, hbare⟩ := ih htail
    have hkind : u.bare.kind = t.bare.kind := congrArg Token.kind hu
    have htarget : e.target = .token u.kind := he.trans (congrArg Target.token hkind).symm
    exact ⟨.leaf u :: ts', .token htarget hgrows, rfl, by
      rw [Tree.movedAll, Tree.movedAll, hbare]
      exact congrArg (fun x => Tree.leaf x :: _) hu⟩
  | copy he _ _ ih ih' =>
    rw [Tree.leavesOf_append, List.map_append] at hus
    obtain ⟨us, us', rfl, hus, hus'⟩ := List.map_eq_append_iff.1 hus
    obtain ⟨ts, hgrows, rfl, hbare⟩ := ih hus
    obtain ⟨ts', hgrows', rfl, hbare'⟩ := ih' hus'
    exact ⟨ts ++ ts', .copy he hgrows hgrows', Tree.leavesOf_append ts ts', by
      rw [Tree.movedAll_append, Tree.movedAll_append, hbare, hbare']⟩

/-- Where a node stands among trees of a phrase, it is grown by its own rule, and another one that
this rule grows can take its place. -/
def Phrase.Replaces (g : RuleSet) (p : Phrase) (ts : List Tree) : Prop :=
  ∀ (before after : List Tree) (c : Surround) (rule : Nat) (name : String) (place : Place)
    (children : List Tree),
    ts = before ++ c.plug (.node rule name place children) :: after →
      Grows g (.rule rule) [.node rule name place children] ∧ ∀ u', Grows g (.rule rule) [u'] →
        ∃ ts', Grows g p ts' ∧ Tree.movedAll nowhere ts' =
          Tree.movedAll nowhere (before ++ c.plug u' :: after)

theorem replaces_append {q q' : Phrase} {us : List Tree} (h : Grows g q ts) (h' : Grows g q' us)
    (ih : q.Replaces g ts)
    (ih' : q'.Replaces g us) (happend : ∀ ts us, Grows g q ts → Grows g q' us →
      Grows g p (ts ++ us)) :
    p.Replaces g (ts ++ us) := by
  intro before after c rule name place children hts
  obtain ⟨mid, rfl, hmid⟩ | ⟨mid, rfl, hmid⟩ := List.append_eq_append_iff.1 hts
  · obtain ⟨hnode, hother⟩ := ih' mid after c rule name place children hmid
    refine ⟨hnode, fun u' hu' => ?_⟩
    obtain ⟨us', hgrows, hbare⟩ := hother u' hu'
    exact ⟨ts ++ us', happend _ _ h hgrows, by rw [List.append_assoc, Tree.movedAll_append, hbare,
      ← Tree.movedAll_append]⟩
  · cases mid with
    | nil =>
      obtain ⟨hnode, hother⟩ := ih' [] after c rule name place children hmid.symm
      refine ⟨hnode, fun u' hu' => ?_⟩
      obtain ⟨us', hgrows, hbare⟩ := hother u' hu'
      rw [List.append_nil] at h
      exact ⟨before ++ us',
        happend _ _ h hgrows, by rw [Tree.movedAll_append, hbare, ← Tree.movedAll_append]; rfl⟩
    | cons x mid =>
      obtain ⟨rfl, rfl⟩ := List.cons.inj hmid
      obtain ⟨hnode, hother⟩ := ih before mid c rule name place children rfl
      refine ⟨hnode, fun u' hu' => ?_⟩
      obtain ⟨ts', hgrows, hbare⟩ := hother u' hu'
      exact ⟨ts' ++ us, happend _ _ hgrows h', by
        rw [Tree.movedAll_append, hbare, ← Tree.movedAll_append, List.append_assoc]
        rfl⟩

/-- A node within a tree is grown by its own rule, and another one that this rule grows can take its
place. -/
theorem Grows.replaces (h : Grows g p ts) : p.Replaces g ts := by
  induction h with
  | @rule r es place' ts hr hes h starts ih =>
    intro before after c rule name place children hts
    cases hidden : r.hidden with
    | true =>
      rw [hidden] at hts
      obtain ⟨hnode, hother⟩ := ih before after c rule name place children hts
      refine ⟨hnode, fun u' hu' => ?_⟩
      obtain ⟨ts', hgrows, hbare⟩ := hother u' hu'
      obtain ⟨place', hgrows⟩ := hgrows.node hr hes
      rw [hidden] at hgrows
      exact ⟨ts', hgrows, hbare⟩
    | false =>
      have hshown := Grows.rule hr hes h starts
      rw [hidden] at hts hshown
      obtain ⟨rfl, rfl, htree⟩ : before = [] ∧ after = [] ∧
          c.plug (.node rule name place children) = .node r.id r.name place' ts := by
        obtain ⟨rfl, hone⟩ | ⟨rfl, hone⟩ := List.append_eq_singleton_iff.1 hts.symm
        · exact ⟨rfl, (List.cons.inj hone).2, (List.cons.inj hone).1⟩
        · cases hone
      cases c with
      | here =>
        cases htree
        exact ⟨hshown, fun u' hu' => ⟨[u'], hu', rfl⟩⟩
      | inside rule' name' place'' before c after =>
        cases htree
        obtain ⟨hnode, hother⟩ := ih before after c rule name place children rfl
        refine ⟨hnode, fun u' hu' => ?_⟩
        obtain ⟨ts', hgrows, hbare⟩ := hother u' hu'
        obtain ⟨place', hgrows⟩ := hgrows.node hr hes
        refine ⟨_, hgrows, ?_⟩
        rw [hidden]
        exact congrArg (fun us => [Tree.node r.id r.name {} us]) hbare
  | nil => exact fun _ _ _ _ _ _ _ hts => by simp at hts
  | cons counts h h' ih ih' => exact replaces_append h h' ih ih' fun _ _ => .cons counts
  | none => exact fun _ _ _ _ _ _ _ hts => by simp at hts
  | @token e t n ts he h ih =>
    intro before after c rule name place children hts
    cases before with
    | nil =>
      cases c <;> cases hts
    | cons x before =>
      obtain ⟨rfl, htail⟩ := List.cons.inj hts
      obtain ⟨hnode, hother⟩ := ih before after c rule name place children htail
      refine ⟨hnode, fun u' hu' => ?_⟩
      obtain ⟨ts', hgrows, hbare⟩ := hother u' hu'
      exact ⟨.leaf t :: ts', .token he hgrows, congrArg (Tree.leaf t.bare :: ·) hbare⟩
  | copy he h h' ih ih' => exact replaces_append h h' ih ih' fun _ _ => .copy he

end Replaced

theorem exists_of_movedAll_eq {f : Place → Place} {ts : List Tree} {t : Tree}
    (h : Tree.movedAll f ts = Tree.movedAll f [t]) : ∃ t', ts = [t'] ∧ t'.moved f = t.moved f := by
  rcases ts with _ | ⟨t', _ | ⟨u, ts⟩⟩
  · simp [Tree.movedAll] at h
  · exact ⟨t', rfl, (List.cons.inj h).1⟩
  · simp [Tree.movedAll] at h

theorem bare_leaves_of_moved_eq {t t' : Tree} (h : t'.moved nowhere = t.moved nowhere) :
    t'.leaves.map Token.bare = t.leaves.map Token.bare := by
  have hleaves := congrArg Tree.leaves h
  rw [Tree.leaves_moved, Tree.leaves_moved] at hleaves
  exact hleaves

/-- A text whose tokens are those of a tree with another part has this tree, at its own places,
unless it is nested too deeply. -/
theorem parse_replaced {l : Lexer} {text text' : Text} {c : Surround} {rule : Nat}
    {name : String} {place : Place} {children : List Tree} {u' : Tree} {us : List Token}
    (h : parse l text = .ok (c.plug (.node rule name place children)))
    (hu' : Grows expressionGrammar (.rule rule) [u']) (hread : (l.read text').1 = us.map .token)
    (hus : us.map Token.bare = (c.plug u').leaves.map Token.bare) :
    (∃ limit place, parse l text' = .error (.tooDeep limit place)) ∨
      ∃ t', parse l text' = .ok t' ∧ t'.moved nowhere = (c.plug u').moved nowhere := by
  obtain ⟨-, hother⟩ := (parse_grows h).replaces [] [] c rule name place children rfl
  obtain ⟨ts, hgrows, hbare⟩ := hother u' hu'
  obtain ⟨t, rfl, ht⟩ := exists_of_movedAll_eq hbare
  have hleaves : us.map Token.bare = (Tree.leavesOf [t]).map Token.bare := by
    rw [hus, ← bare_leaves_of_moved_eq ht, Tree.leavesOf, Tree.leavesOf, List.append_nil]
  obtain ⟨ts', hgrows', hleaves', hbare'⟩ := hgrows.relabelled hleaves
  obtain ⟨t', rfl, ht'⟩ := exists_of_movedAll_eq hbare'
  have htokens := tokenize_of_read hread
  rw [Tree.leavesOf, Tree.leavesOf, List.append_nil] at hleaves'
  refine (parse_of_grows (by rw [htokens]) hgrows' (by rw [htokens, hleaves'])).imp id fun hparse =>
    ?_
  exact ⟨t', hparse, ht'.trans ht⟩

end Formulary.Grammar
